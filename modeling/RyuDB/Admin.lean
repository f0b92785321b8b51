/-
# Administration

`_run_admin`, `_run_alter` and `_run_upload` (`ryudb/server/handlers.py`): the requests that change
the catalog, fold the delta, take or restore snapshots or drop caches, run under the engine's write
lock.  Checkpoint and restore are refused while a live connection has an open transaction.  The
worker's own `_txn` slot is empty between requests, so an action runs outside any transaction.

A `World` moves by an `Act`: a step of a connection, an admin action, or an upload.  Arguments are
taken as checked; a request with a missing or badly typed argument changes nothing.  What an action
drops from the code and key caches is said in `CodeCaches`.
-/
import RyuDB.Checkpoint
import RyuDB.Sql

namespace RyuDB

variable {V : Type}

/-! ## 1. Actions -/

/-- The kinds of `alter`. -/
inductive Alter (V : Type) where
  | pk (cols : List String)
  | pkClear
  | notnull (col : String)
  | notnullOff (col : String)
  | unique (cols : List String)
  | default (col : String) (v : Cell V)
  | dropDefault (col : String)

/-- The argument of `clear_cache`. -/
inductive CacheKind where
  | scan
  | code
  | both
  deriving DecidableEq, Repr

/-- The admin actions. -/
inductive Admin (V : Type) where
  | register (t : String) (path : PathArg)
  | drop (t : String)
  | rename (old new : String)
  | alter (t : String) (a : Alter V)
  | checkpoint
  | snapshot (name : String)
  | restore (name : String)
  | restoreTo (ts : Int)
  | clearCache (which : CacheKind)

/-- What an action answers. -/
inductive Detail where
  | registered (name : String)
  | dropped
  | renamed
  | altered (what : String)
  | tables (written : List (String × Nat))
  | snapshot
  | restored
  | restoredTo (ts : Int)
  | cleared (which : CacheKind)
  | uploaded (name : String) (rowCount columns : Nat) (path : Path)

/-- `_run_alter`. -/
def runAlter (c : Catalog V) (d : Disk V) (t : String) :
    Alter V → Except DbError (Catalog V × Disk V)
  | .pk cols => c.setPrimaryKey d t cols
  | .pkClear => c.setPrimaryKey d t []
  | .notnull col => c.setNotNull d t col true
  | .notnullOff col => c.setNotNull d t col false
  | .unique cols => c.setUnique d t cols
  | .default col v => c.setDefault d t col v
  | .dropDefault col => c.dropDefault d t col

/-- The answer of `_run_alter`. -/
def Alter.what : Alter V → String
  | .pk _ => "primary_key"
  | .pkClear => "primary_key_cleared"
  | .notnull _ => "not_null"
  | .notnullOff _ => "not_null_off"
  | .unique _ => "unique"
  | .default _ _ => "default"
  | .dropDefault _ => "drop_default"

/-! ## 2. Running them -/

namespace Engine

/-- A change of the catalog, which was saved to disk. -/
def changeCatalog (f : Catalog V → Disk V → Except DbError (Catalog V × Disk V)) : Op V Unit :=
  fun s =>
    match f s.eng.catalog s.eng.disk with
    | .error x => (.error x, s)
    | .ok (c, d) => (.ok (), { s with eng := { s.eng with catalog := c, disk := d } })

variable [DecidableEq V]

/-- `_run_admin`, given whether a live connection has an open transaction. -/
def runAdmin (H : Host V) (hasOpenTxn : Bool) : Admin V → Op V Detail
  | .register t path => do
    changeCatalog fun c d => c.register d t path
    return .registered t
  | .drop t => do
    changeCatalog fun c d => c.dropTable d t
    Proc.modify fun s => { s with eng := s.eng.dropScanCacheFor t }
    return .dropped
  | .rename old new => do
    changeCatalog fun c d => c.renameTable d old new
    Proc.modify fun s => { s with eng := s.eng.dropScanCacheFor old }
    return .renamed
  | .alter t a => do
    changeCatalog fun c d => runAlter c d t a
    return .altered a.what
  | .checkpoint =>
    if hasOpenTxn then Proc.raise (.runtime ("cannot checkpoint while a transaction is open " ++
      "(COMMIT/ROLLBACK on all connections first)"))
    else do
      let written ← checkpoint H
      return .tables written
  | .snapshot name => do
    snapshot name
    return .snapshot
  | .restore name =>
    if hasOpenTxn then Proc.raise (.runtime ("cannot restore while a transaction is open " ++
      "(COMMIT/ROLLBACK on all connections first)"))
    else do
      restore name
      return .restored
  | .restoreTo ts =>
    if hasOpenTxn then Proc.raise (.runtime ("cannot restore while a transaction is open " ++
      "(COMMIT/ROLLBACK on all connections first)"))
    else do
      restoreTo ts
      return .restoredTo ts
  | .clearCache which => do
    Proc.modify fun s => { s with eng :=
      if which = .code then s.eng else { s.eng with scanCache := ∅ } }
    return .cleared which

/-- `_run_upload`: write the payload under a new name, register it, and remove it again when that
fails.  The payload is a Parquet file, or bytes `read_schema` refuses. -/
def runUpload (t : String) (p : Path) (payload : Option (Parquet V)) : Op V Detail :=
  match payload with
  | none => Proc.raise (.value "not a Parquet file")
  | some data => do
    Proc.modify fun s => { s with eng := s.eng.withFiles (s.eng.disk.parquet.set p data) }
    Proc.onError (changeCatalog fun c d => c.register d t (.file p)) fun s =>
      { s with eng := s.eng.withFiles (s.eng.disk.parquet.erase p) }
    return .uploaded t data.frame.rows.length data.schema.names.length p

end Engine

/-! ## 3. Acts -/

/-- A step of a connection, an admin action, or an upload. -/
inductive Act (V : Type) where
  | conn (a : Step V)
  | admin (a : Admin V) (faults : Faults)
  | upload (t : String) (p : Path) (payload : Option (Parquet V))

namespace World

/-- `has_open_txn`. -/
def hasOpenTxn (w : World V) : Bool := !w.txns.keys.isEmpty

theorem hasOpenTxn_eq_false {w : World V} :
    w.hasOpenTxn = false ↔ ∀ c, w.txns.get? c = none := by
  rw [hasOpenTxn, Bool.not_eq_false', List.isEmpty_iff]
  constructor
  · intro h c
    cases hx : w.txns.get? c with
    | none => rfl
    | some x =>
      have hmem : c ∈ w.txns.keys := (w.txns.mem_keys c).mpr ⟨x, hx⟩
      rw [h] at hmem
      cases hmem
  · intro h
    refine List.eq_nil_iff_forall_not_mem.mpr fun c hc => ?_
    obtain ⟨x, hx⟩ := (w.txns.mem_keys c).mp hc
    rw [h c] at hx
    cases hx

variable [DecidableEq V] (H : Host V)

/-- An admin action. -/
def admin (w : World V) (a : Admin V) (faults : Faults) : Except DbError Detail × World V :=
  let p := Engine.runAdmin H w.hasOpenTxn a ⟨w.eng, none, faults⟩
  (p.1, { w with eng := p.2.eng })

/-- An upload. -/
def upload (w : World V) (t : String) (p : Path) (payload : Option (Parquet V)) :
    Except DbError Detail × World V :=
  let q := Engine.runUpload t p payload ⟨w.eng, none, {}⟩
  (q.1, { w with eng := q.2.eng })

/-- One act. -/
def act (w : World V) : Act V → World V
  | .conn a => w.step H a
  | .admin a faults => (w.admin H a faults).2
  | .upload t p payload => (w.upload t p payload).2

end World

/-! ## 4. What an action can do

Every action either raises before it changed anything or ends in one of the engines below. -/

namespace Alter

/-- The constraints after an `alter`. -/
def change : Alter V → TableConstraints V → TableConstraints V
  | .pk cols, k => { k with
      primaryKey := some cols
      notNull := k.notNull ++ cols.filter (· ∉ k.notNull) }
  | .pkClear, k => { k with primaryKey := some [], notNull := k.notNull ++ [] }
  | .notnull col, k => { k with notNull :=
      if col ∈ k.notNull then k.notNull else k.notNull ++ [col] }
  | .notnullOff col, k => { k with notNull := k.notNull.filter (· ≠ col) }
  | .unique cols, k => { k with unique := if cols ∈ k.unique then k.unique else k.unique ++ [cols] }
  | .default col v, k => { k with defaults := k.defaults.set col v }
  | .dropDefault col, k => { k with defaults := k.defaults.erase col }

end Alter

theorem runAlter_eq (c : Catalog V) (d : Disk V) (t : String) (a : Alter V) :
    ∃ check, runAlter c d t a = Catalog.alterWith check a.change c d t := by
  cases a with
  | pkClear => exact ⟨fun i => Catalog.knownColumns i t [], rfl⟩
  | dropDefault col => exact ⟨fun _ => .ok (), rfl⟩
  | _ => exact ⟨_, rfl⟩

theorem runAlter_ok {c c' : Catalog V} {d d' : Disk V} {t : String} {a : Alter V}
    (h : runAlter c d t a = .ok (c', d')) : ∃ i, c.tables.get? t = some i ∧
      c' = { c with tables := c.tables.set t { i with constraints := a.change i.constraints } } ∧
      d' = c'.save d := by
  obtain ⟨check, heq⟩ := runAlter_eq c d t a
  rw [heq] at h
  obtain ⟨i, hi, -, hc, hd⟩ := Catalog.alterWith_ok h
  exact ⟨i, hi, hc, hd⟩

namespace Engine

/-- The engine with other tables, saved to disk. -/
def withTables (e : Engine V) (tables : Dict String (TableInfo V)) : Engine V :=
  { e with
    catalog := { e.catalog with tables := tables }
    disk := { e.catalog with tables := tables }.save e.disk }

/-- The entry `i` of a table is read from the files `paths` on the disk of `e`. -/
structure ReadFrom (e : Engine V) (t : String) (paths : List Path) (i : TableInfo V) : Prop where
  paths : i.paths = paths
  files : ∃ f fs, e.disk.parquet.readAll i.paths = .ok (f :: fs) ∧ i.schema = f.schema
  constraints : i.constraints = Catalog.inherited (e.catalog.tables.get? t) i.schema.required

/-- What an admin action can do to the engine. -/
inductive Admined [DecidableEq V] (H : Host V) (hasOpenTxn : Bool) (s : Session V) :
    Admin V → Engine V → Prop
  | refused (a : Admin V) : Admined H hasOpenTxn s a s.eng
  | register {t : String} {path : PathArg} {i : TableInfo V}
      (hi : ReadFrom s.eng t (resolveParquetPaths s.eng.disk.parquet path) i) :
      Admined H hasOpenTxn s (.register t path) (s.eng.withTables (s.eng.catalog.tables.set t i))
  | drop {t : String} : Admined H hasOpenTxn s (.drop t)
      ((s.eng.withTables (s.eng.catalog.tables.erase t)).dropScanCacheFor t)
  | rename {old new : String} {i : TableInfo V} (hi : s.eng.catalog.tables.get? old = some i)
      (hnew : s.eng.catalog.tables.get? new = none) : Admined H hasOpenTxn s (.rename old new)
        ((s.eng.withTables ((s.eng.catalog.tables.erase old).set new
          { i with name := new })).dropScanCacheFor old)
  | alter {t : String} {a : Alter V} {i : TableInfo V}
      (hi : s.eng.catalog.tables.get? t = some i) : Admined H hasOpenTxn s (.alter t a)
        (s.eng.withTables (s.eng.catalog.tables.set t
          { i with constraints := a.change i.constraints }))
  | checkpoint (ho : hasOpenTxn = false) :
      Admined H hasOpenTxn s .checkpoint (checkpoint H s).2.eng
  | snapshot (name : String) : Admined H hasOpenTxn s (.snapshot name)
      { s.eng with snapshots := s.eng.snapshots.set name s.eng.commitTs }
  | restore {name : String} {ts : Int} (ho : hasOpenTxn = false)
      (hn : s.eng.snapshots.get? name = some ts) (hle : ts ≤ s.eng.commitTs) :
      Admined H hasOpenTxn s (.restore name) (restoreTo ts s).2.eng
  | restoreTo {ts : Int} (ho : hasOpenTxn = false) (hle : ts ≤ s.eng.commitTs) :
      Admined H hasOpenTxn s (.restoreTo ts) (restoreTo ts s).2.eng
  | clearCache (which : CacheKind) : Admined H hasOpenTxn s (.clearCache which)
      (if which = .code then s.eng else { s.eng with scanCache := ∅ })

/-- A change of the catalog raised, or saved the catalog it made. -/
theorem changeCatalog_cases {f : Catalog V → Disk V → Except DbError (Catalog V × Disk V)}
    (s : Session V) : (∃ x, changeCatalog f s = (.error x, s)) ∨
      ∃ c d, f s.eng.catalog s.eng.disk = .ok (c, d) ∧
        changeCatalog f s = (.ok (), { s with eng := { s.eng with catalog := c, disk := d } }) := by
  unfold changeCatalog
  cases hf : f s.eng.catalog s.eng.disk with
  | error x => exact Or.inl ⟨x, rfl⟩
  | ok p => exact Or.inr ⟨p.1, p.2, rfl, rfl⟩

section Cases

variable [DecidableEq V] {H : Host V} {s : Session V}

omit [DecidableEq V] in
/-- A restore outside a transaction to a timestamp of the future raises. -/
theorem restoreTo_refused (hx : s.txn = none) {ts : Int} (h : ¬ ts ≤ s.eng.commitTs) :
    (restoreTo ts s).2 = s := by
  unfold restoreTo
  rw [Proc.get_bind, hx]
  simp only
  rw [if_pos (by omega)]
  rfl

omit [DecidableEq V] in
/-- What follows a part that only computes the answer does not move the session. -/
theorem bind_pure_state {α β : Type} (x : Op V α) (f : α → β) (s : Session V) :
    ((do let a ← x; return f a : Op V β) s).2 = (x s).2 := by
  rcases h : x s with ⟨r, s'⟩
  cases r with
  | error e => rw [Proc.bind_of_error h]
  | ok a => rw [Proc.bind_of_ok h]; rfl

/-- **Every action does one of these things.** -/
theorem runAdmin_cases (hasOpenTxn : Bool) (hx : s.txn = none) (a : Admin V) :
    Admined H hasOpenTxn s a (runAdmin H hasOpenTxn a s).2.eng := by
  cases a with
  | register t path =>
    change Admined H hasOpenTxn s _ ((do changeCatalog _; return _ : Op V Detail) s).2.eng
    rcases changeCatalog_cases (f := fun c d => c.register d t path) s with ⟨x, hr⟩ | ⟨c, d, hf, hr⟩
    · rw [Proc.bind_of_error hr]
      exact Admined.refused _
    · rw [Proc.bind_of_ok hr]
      obtain ⟨i, f, fs, hread, hres, hschema, hcons, rfl, rfl⟩ := Catalog.register_ok hf
      exact Admined.register ⟨hres.symm, ⟨f, fs, hread, hschema⟩, hcons⟩
  | drop t =>
    change Admined H hasOpenTxn s _ ((do
      changeCatalog _; Proc.modify _; return _ : Op V Detail) s).2.eng
    rcases changeCatalog_cases (f := fun c d => c.dropTable d t) s with ⟨x, hr⟩ | ⟨c, d, hf, hr⟩
    · rw [Proc.bind_of_error hr]
      exact Admined.refused _
    · rw [Proc.bind_of_ok hr]
      obtain ⟨rfl, rfl⟩ := Catalog.dropTable_ok hf
      exact Admined.drop
  | rename old new =>
    change Admined H hasOpenTxn s _ ((do
      changeCatalog _; Proc.modify _; return _ : Op V Detail) s).2.eng
    rcases changeCatalog_cases (f := fun c d => c.renameTable d old new) s with
      ⟨x, hr⟩ | ⟨c, d, hf, hr⟩
    · rw [Proc.bind_of_error hr]
      exact Admined.refused _
    · rw [Proc.bind_of_ok hr]
      obtain ⟨i, hi, hnew, rfl, rfl⟩ := Catalog.renameTable_ok hf
      exact Admined.rename hi hnew
  | alter t a =>
    change Admined H hasOpenTxn s _ ((do changeCatalog _; return _ : Op V Detail) s).2.eng
    rcases changeCatalog_cases (f := fun c d => runAlter c d t a) s with ⟨x, hr⟩ | ⟨c, d, hf, hr⟩
    · rw [Proc.bind_of_error hr]
      exact Admined.refused _
    · rw [Proc.bind_of_ok hr]
      obtain ⟨i, hi, rfl, rfl⟩ := runAlter_ok hf
      exact Admined.alter hi
  | checkpoint =>
    cases hasOpenTxn with
    | true => exact Admined.refused _
    | false =>
      simp only [runAdmin, Bool.false_eq_true, if_false]
      rw [bind_pure_state]
      exact Admined.checkpoint rfl
  | snapshot name => exact Admined.snapshot name
  | restore name =>
    cases hasOpenTxn with
    | true => exact Admined.refused _
    | false =>
      simp only [runAdmin, Bool.false_eq_true, if_false]
      have hstate : ((do restore name; return Detail.restored : Op V Detail) s).2 =
          (restore name s).2 := bind_pure_state _ _ s
      rw [hstate]
      unfold restore
      rw [Proc.get_bind]
      cases hn : s.eng.snapshots.get? name with
      | none => exact Admined.refused _
      | some ts =>
        by_cases hle : ts ≤ s.eng.commitTs
        · exact Admined.restore rfl hn hle
        · simp only
          rw [restoreTo_refused hx hle]
          exact Admined.refused _
  | restoreTo ts =>
    cases hasOpenTxn with
    | true => exact Admined.refused _
    | false =>
      simp only [runAdmin, Bool.false_eq_true, if_false]
      have hstate : ((do restoreTo ts; return Detail.restoredTo ts : Op V Detail) s).2 =
          (restoreTo ts s).2 := bind_pure_state _ _ s
      rw [hstate]
      by_cases hle : ts ≤ s.eng.commitTs
      · exact Admined.restoreTo rfl hle
      · rw [restoreTo_refused hx hle]
        exact Admined.refused _
  | clearCache which => exact Admined.clearCache which

omit [DecidableEq V] in
/-- What an upload can do: nothing, or a new file and a table read from it. -/
theorem runUpload_cases (t : String) (p : Path) (payload : Option (Parquet V))
    (hfresh : s.eng.disk.parquet.get? p = none) :
    (∃ d, (∀ q, d.get? q = s.eng.disk.parquet.get? q) ∧
      (runUpload t p payload s).2.eng = s.eng.withFiles d) ∨
      ∃ data i, payload = some data ∧
        ReadFrom (s.eng.withFiles (s.eng.disk.parquet.set p data)) t [p] i ∧
        (runUpload t p payload s).2.eng = (s.eng.withFiles (s.eng.disk.parquet.set p
          data)).withTables (s.eng.catalog.tables.set t i) := by
  cases payload with
  | none => exact Or.inl ⟨s.eng.disk.parquet, fun _ => rfl, rfl⟩
  | some data =>
    unfold runUpload
    simp only [Proc.modify_bind]
    generalize hs₁ : ({ s with eng := s.eng.withFiles (s.eng.disk.parquet.set p data) } :
      Session V) = s₁
    rcases changeCatalog_cases (f := fun c d => c.register d t (.file p)) s₁ with
      ⟨x, hr⟩ | ⟨c, d, hf, hr⟩
    · left
      refine ⟨(s.eng.disk.parquet.set p data).erase p, fun q => ?_, ?_⟩
      · rw [Dict.get?_erase, Dict.get?_set]
        by_cases hq : q = p
        · rw [if_pos hq, hq, hfresh]
        · rw [if_neg hq, if_neg hq]
      · have herr : Proc.onError (changeCatalog fun c d => c.register d t (.file p))
            (fun s => { s with eng := s.eng.withFiles (s.eng.disk.parquet.erase p) }) s₁ =
              (.error x, { s₁ with eng := s₁.eng.withFiles (s₁.eng.disk.parquet.erase p) }) := by
          simp only [Proc.onError, hr]
        rw [Proc.bind_of_error herr, ← hs₁]
        rfl
    · right
      have hok : Proc.onError (changeCatalog fun c d => c.register d t (.file p))
          (fun s => { s with eng := s.eng.withFiles (s.eng.disk.parquet.erase p) }) s₁ =
            (.ok (), { s₁ with eng := { s₁.eng with catalog := c, disk := d } }) := by
        simp only [Proc.onError, hr]
      rw [Proc.bind_of_ok hok]
      subst hs₁
      obtain ⟨i, f, fs, hread, hres, hschema, hcons, rfl, rfl⟩ := Catalog.register_ok hf
      have hp : resolveParquetPaths (s.eng.disk.parquet.set p data) (.file p) = [p] := by
        simp [resolveParquetPaths]
      exact ⟨data, i, rfl, ⟨hres.symm.trans hp, ⟨f, fs, hread, hschema⟩, hcons⟩, rfl⟩

end Cases

end Engine

end RyuDB
