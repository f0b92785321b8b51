/-
# Statements keep the state well shaped

`EngineOk` and `TxnOk` are what the arguments about `seen` ask of an engine and of a transaction.
`Sound` adds what a commit asks: a counter and snapshots that are not negative.  Every effect of a
statement keeps all of it (`effect_sound`), as long as tombstones are written under a key that was
not cleared.  Statements do not touch the catalog, so every world reached by requests and
disconnects from a settled one is settled (`settled_run`), and a process that starts on readable
files with a fresh log is settled (`settled_init` in `Reload`).

What is asked is little, and it is the same for every statement: batches have the columns of their
table, tombstones the columns of its key, timestamps lie between one and the counter.  None of it is
about the values in the rows; that the constraints hold is the subject of `Unique` and `NotNull`.
-/
import RyuDB.Visibility
import RyuDB.Sql

namespace RyuDB.Engine

open Versioned

variable {V : Type}

/-! ## 1. The engine -/

/-- A well-shaped engine whose counter and snapshots are not negative. -/
structure Sound (e : Engine V) : Prop where
  ok : EngineOk e
  counter : 0 ≤ e.commitTs
  snapshots : ∀ n ts, e.snapshots.get? n = some ts → 0 ≤ ts

/-- Catalog, files and delta are those of `e`, and the counter did not fall. -/
structure Kept (e e' : Engine V) : Prop where
  catalog : e'.catalog = e.catalog
  parquet : e'.disk.parquet = e.disk.parquet
  delta : e'.delta = e.delta
  counter : e.commitTs ≤ e'.commitTs

section Engine

variable {e e' : Engine V}

theorem EngineOk.kept (h : EngineOk e) (hk : Kept e e') (hc : Coherent e') : EngineOk e' where
  coherent := hc
  base := by
    intro t i hi
    rw [hk.catalog] at hi
    rw [hk.parquet]
    exact h.base t i hi
  delta := by
    constructor
    · intro t b hb
      rw [hk.delta] at hb
      have := h.delta.ins t b hb
      rw [hk.catalog]
      exact ⟨⟨this.1.1, le_trans this.1.2 hk.counter⟩, this.2⟩
    · intro t b hb
      rw [hk.delta] at hb
      have := h.delta.tomb t b hb
      rw [hk.catalog]
      exact ⟨⟨this.1.1, le_trans this.1.2 hk.counter⟩, this.2⟩

theorem Sound.kept (h : Sound e) (hk : Kept e e') (hc : Coherent e')
    (hs : e'.snapshots = e.snapshots) : Sound e' where
  ok := h.ok.kept hk hc
  counter := le_trans h.counter hk.counter
  snapshots := by rw [hs]; exact h.snapshots

theorem Quiet.kept {s s' : Session V} (hq : Quiet s s') : Kept s.eng s'.eng :=
  ⟨hq.catalog, by rw [hq.disk], hq.delta, hq.commitTs.ge⟩

theorem Sound.quiet {s s' : Session V} (h : Sound s.eng) (ha : s.faults.writesBack = false)
    (hq : Quiet s s') : Sound s'.eng :=
  h.kept hq.kept (hq.coherent ⟨h.ok.coherent, ha⟩) hq.snapshots

/-- The write set of a well-shaped transaction is well shaped in the delta. -/
theorem DeltaOk.commit {bs : List (Batch V)} {x : Transaction V} (h : DeltaOk e)
    (h0 : 0 ≤ e.commitTs) (hc : Committed bs e e') (hbs : Carries bs x)
    (hx : TxnOk e.catalog x) : DeltaOk e' := by
  constructor
  · intro t b hb
    rw [hc.delta, DeltaStore.batchesWithTs_addAll, (hbs t).1] at hb
    rw [hc.catalog, hc.commitTs]
    rcases List.mem_append.mp hb with hb | hb
    · have := h.ins t b hb
      exact ⟨⟨this.1.1, by omega⟩, this.2⟩
    · obtain ⟨f, hf, rfl⟩ := List.mem_map.mp hb
      exact ⟨⟨by simp only; omega, le_refl _⟩, hx.ins t f hf⟩
  · intro t b hb
    rw [hc.delta, DeltaStore.tombstonesWithTs_addAll, (hbs t).2] at hb
    rw [hc.catalog, hc.commitTs]
    rcases List.mem_append.mp hb with hb | hb
    · have := h.tomb t b hb
      exact ⟨⟨this.1.1, by omega⟩, this.2⟩
    · obtain ⟨g, hg, rfl⟩ := List.mem_map.mp hb
      exact ⟨⟨by simp only; omega, le_refl _⟩, hx.tomb t g hg⟩

theorem Sound.commit {bs : List (Batch V)} {x : Transaction V} (h : Sound e)
    (hc : Committed bs e e') (hbs : Carries bs x) (hx : TxnOk e.catalog x) (hco : Coherent e')
    (hs : e'.snapshots = e.snapshots) : Sound e' where
  ok := by
    refine ⟨hco, ?_, h.ok.delta.commit h.counter hc hbs hx⟩
    intro t i hi
    rw [hc.catalog] at hi
    rw [hc.parquet]
    exact h.ok.base t i hi
  counter := by
    have := h.counter
    rw [hc.commitTs]
    omega
  snapshots := by rw [hs]; exact h.snapshots

theorem Sound.snapshot (h : Sound e) (name : String) :
    Sound { e with snapshots := e.snapshots.set name e.commitTs } := by
  refine ⟨h.ok.kept ⟨rfl, rfl, rfl, le_refl _⟩ h.ok.coherent, h.counter, ?_⟩
  intro n ts hn
  rw [Dict.get?_set] at hn
  split at hn
  · cases hn
    exact h.counter
  · exact h.snapshots n ts hn

/-- A restore leaves the part of the delta up to its target. -/
theorem Sound.restoreTo {s : Session V} (h : Sound s.eng) (hx : s.txn = none) {ts : Int}
    (h0 : 0 ≤ ts) (hle : ts ≤ s.eng.commitTs) : Sound (Engine.restoreTo ts s).2.eng := by
  obtain ⟨wal, snapshots, hs', hsub⟩ := restoreTo_state hx hle
  rw [hs']
  refine ⟨⟨h.ok.coherent, h.ok.base, ?_⟩, h0, fun n ts hn => h.snapshots n ts (hsub n ts hn)⟩
  constructor
  · intro t b hb
    rw [DeltaStore.batchesWithTs_rewind, DeltaStore.batchesAtWithTs_eq] at hb
    obtain ⟨hb, hle⟩ := List.mem_filter.mp hb
    have := h.ok.delta.ins t b hb
    exact ⟨⟨this.1.1, by simpa using hle⟩, this.2⟩
  · intro t b hb
    rw [DeltaStore.tombstonesWithTs_rewind, DeltaStore.tombstonesAtWithTs_eq] at hb
    obtain ⟨hb, hle⟩ := List.mem_filter.mp hb
    have := h.ok.delta.tomb t b hb
    exact ⟨⟨this.1.1, by simpa using hle⟩, this.2⟩

end Engine

/-! ## 2. Commits -/

/-- What `_write_commit` leaves behind: the batches are in the delta, or it raised and burnt a
timestamp. -/
inductive Wrote (bs : List (Batch V)) (s : Session V) : Except DbError Int × Session V → Prop
  | ok (wal : Option Bytes) : Wrote bs s (.ok (s.eng.commitTs + 1), { s with eng := { s.eng with
      commitTs := s.eng.commitTs + 1
      disk := { s.eng.disk with wal := wal }
      delta := s.eng.delta.addAll (s.eng.commitTs + 1) bs } })
  | error (y : DbError) (wal : Option Bytes) : Wrote bs s (.error y, { s with eng := { s.eng with
      commitTs := s.eng.commitTs + 1
      disk := { s.eng.disk with wal := wal } } })

theorem writeCommit_wrote (H : Host V) (bs : List (Batch V)) (s : Session V) :
    Wrote bs s (writeCommit H bs s) := by
  rcases hw : Wal.writeCommit H s.eng.walEnabled s.eng.disk.wal s.faults.append
    (s.eng.commitTs + 1) bs with ⟨r, wal⟩
  cases r with
  | ok u =>
    rw [writeCommit_ok H hw]
    exact Wrote.ok wal
  | error y =>
    rw [writeCommit_error H hw]
    exact Wrote.error y wal

theorem Wrote.cases {bs : List (Batch V)} {s : Session V} {p : Except DbError Int × Session V}
    (hw : Wrote bs s p) : (∃ ts, p.1 = .ok ts) ∧ Committed bs s.eng p.2.eng ∨
      (∃ z, p.1 = .error z) ∧ Kept s.eng p.2.eng := by
  cases hw with
  | ok wal =>
    refine Or.inl ⟨⟨_, rfl⟩, ?_⟩
    exact ⟨rfl, rfl, rfl, rfl⟩
  | error z wal =>
    refine Or.inr ⟨⟨z, rfl⟩, ?_⟩
    refine ⟨rfl, rfl, rfl, ?_⟩
    simp only
    omega

theorem Wrote.sound {bs : List (Batch V)} {s : Session V} {p : Except DbError Int × Session V}
    {x : Transaction V} (hw : Wrote bs s p) (h : Sound s.eng) (hbs : Carries bs x)
    (hx : TxnOk s.eng.catalog x) : Sound p.2.eng := by
  cases hw with
  | ok wal => exact h.commit ⟨rfl, rfl, rfl, rfl⟩ hbs hx h.ok.coherent rfl
  | error y wal =>
    exact h.kept ⟨rfl, rfl, rfl, by simp only; omega⟩ h.ok.coherent rfl

/-- A COMMIT that succeeded put the batches of its transaction into the delta. -/
theorem sql_commit_ok [DecidableEq V] {H : Host V} {s : Session V} {x : Transaction V}
    (hx : s.txn = some x) {r : Result V} (hok : (sql H .commit s).1 = .ok r) :
    ∃ e', (sql H .commit s).2 = ⟨e', none, s.faults⟩ ∧ Committed (commitBatches H x) s.eng e' ∧
      e'.scanCache = s.eng.scanCache ∧ e'.snapshots = s.eng.snapshots := by
  have hwrote := writeCommit_wrote H (commitBatches H x) s
  have hcommit := commit_of_txn H hx
  generalize writeCommit H (commitBatches H x) s = w at hwrote hcommit
  cases hwrote with
  | error y wal =>
    have hrun : sql H .commit s = (.error y, _) := Proc.bind_of_error hcommit
    rw [hrun] at hok
    cases hok
  | ok wal =>
    have hrun : sql H .commit s = (.ok .none, _) := Proc.bind_of_ok hcommit
    rw [hrun]
    exact ⟨_, rfl, ⟨rfl, rfl, rfl, rfl⟩, rfl, rfl⟩

/-- A COMMIT that raised left the delta and the transaction. -/
theorem sql_commit_error [DecidableEq V] {H : Host V} {s : Session V} {x : Transaction V}
    (hx : s.txn = some x) {y : DbError} (hy : (sql H .commit s).1 = .error y) :
    (sql H .commit s).2.eng.delta = s.eng.delta ∧ (sql H .commit s).2.txn = some x := by
  have hwrote := writeCommit_wrote H (commitBatches H x) s
  have hcommit := commit_of_txn H hx
  generalize writeCommit H (commitBatches H x) s = w at hwrote hcommit
  cases hwrote with
  | error y wal =>
    have hrun : sql H .commit s = (.error y, _) := Proc.bind_of_error hcommit
    rw [hrun]
    exact ⟨rfl, hx⟩
  | ok wal =>
    have hrun : sql H .commit s = (.ok .none, _) := Proc.bind_of_ok hcommit
    rw [hrun] at hy
    cases hy

theorem Coherent.committed {bs : List (Batch V)} {e e' : Engine V} (h : Coherent e)
    (hc : Committed bs e e') (hs : e'.scanCache = e.scanCache) : Coherent e' := by
  intro t cols f hf
  rw [hs] at hf
  rw [hc.catalog, hc.parquet]
  exact h t cols f hf

/-! ## 3. Transactions -/

section Transactions

variable [DecidableEq V] {e : Engine V} {x : Transaction V} {t : String} {w : Flush V}

omit [DecidableEq V] in
theorem TxnOk.new (c : Catalog V) (ts : Int) : TxnOk c { snapshotTs := ts } :=
  ⟨fun _ f hf => (by cases hf), fun _ g hg => (by cases hg)⟩

/-- A transaction stays well shaped when a checked write set is buffered.  Tombstones need a key
with a column. -/
theorem Flush.Ok.txnOk {H : Host V} (hw : w.Ok H e x t)
    (hk : w.update = none ∧ w.delete = none ∨ Keyed e t) (hx : TxnOk e.catalog x) :
    TxnOk e.catalog (w.buffered t x) := by
  obtain ⟨i, hi, hnew, htomb⟩ := hw
  constructor
  · intro u f hf
    rw [Flush.bufferBatches_buffered] at hf
    rcases List.mem_append.mp hf with hold | hadd
    · exact hx.ins u f hold
    · split at hadd
      · rename_i hu
        rw [hu]
        exact ⟨i, hi, (hnew f (Option.mem_toList.mp hadd)).1⟩
      · cases hadd
  · intro u g hg
    rw [Flush.tombstones_buffered, Flush.tombstones_tombed] at hg
    rcases List.mem_append.mp hg with hold | hadd
    · exact hx.tomb u g hold
    · split at hadd
      · rename_i hu
        rw [hu]
        have hmem : g.1 ∈ w.update.toList ++ w.delete.toList := by
          rcases List.mem_append.mp hadd with hg | hg
          · obtain ⟨g', hg', rfl⟩ := List.mem_map.mp hg
            exact List.mem_append_left _ hg'
          · obtain ⟨g', hg', rfl⟩ := List.mem_map.mp hg
            exact List.mem_append_right _ hg'
        obtain ⟨p, l, hp, hsub, hgl, -⟩ := htomb g.1 hmem
        refine ⟨i, p, hi, hp, ?_, hsub, by rw [hgl]; rfl⟩
        rintro rfl
        rcases hk with ⟨hu0, hd0⟩ | hk
        · rw [hu0, hd0] at hmem
          cases hmem
        · exact hk i hi hp
      · cases hadd

/-- **Every effect keeps the session well shaped.** -/
theorem effect_sound {H : Host V} {st : Stmt V} {s s' : Session V} (he : Effect H st s s')
    (h : Sound s.eng) (ha : s.faults.writesBack = false) (hx : TxnOk? s.eng.catalog s.txn)
    (hk : ∀ t, erases st = some t → Keyed s.eng t) :
    Sound s'.eng ∧ TxnOk? s'.eng.catalog s'.txn := by
  cases he with
  | quiet hq =>
    refine ⟨h.quiet ha hq, ?_⟩
    rw [hq.catalog, hq.txn]
    exact hx
  | @write s₁ t w bs hnone hq hbs ht hw =>
    have hok := (hw h.ok (hk t)).txnOk (ht.imp_right (hk t)) (TxnOk.new _ _)
    have hwrote := writeCommit_wrote H bs s₁
    refine ⟨hwrote.sound (h.quiet ha hq) hbs (by rw [hq.catalog]; exact hok), ?_⟩
    generalize writeCommit H bs s₁ = p at hwrote
    intro y hy
    cases hwrote with
    | ok wal => rw [hq.txn, hnone] at hy; cases hy
    | error z wal => rw [hq.txn, hnone] at hy; cases hy
  | @buffer s₁ t w x hsome hq hu hd hw =>
    have hs : Sound s₁.eng := h.quiet ha hq
    refine ⟨hs, ?_⟩
    intro y hy
    cases hy
    have hxo : TxnOk s.eng.catalog x := hx x hsome
    have hkey : w.update = none ∧ w.delete = none ∨ Keyed s.eng t := by
      rcases hd with hd | ⟨n, hst, hn⟩
      · exact Or.inl ⟨hu, hd⟩
      · exact Or.inr (hk t (by rw [hst, erases, hn]))
    rw [hq.catalog]
    exact (hw h.ok hxo).txnOk hkey hxo
  | begin _ hnone =>
    refine ⟨h, ?_⟩
    intro y hy
    cases hy
    exact TxnOk.new _ _
  | @commit x hst hsome =>
    have hwrote := writeCommit_wrote H (commitBatches H x) s
    have hs := hwrote.sound h (commitBatches_carries H x) (hx x hsome)
    rw [commit_of_txn H hsome]
    generalize writeCommit H (commitBatches H x) s = p at hwrote hs
    cases hwrote with
    | ok wal => exact ⟨hs, fun y hy => by cases hy⟩
    | error z wal => exact ⟨hs, hx⟩
  | rollback hsome => exact ⟨h, fun y hy => by cases hy⟩
  | snapshot name => exact ⟨h.snapshot name, hx⟩
  | @restore name target hst hnone hn hle =>
    refine ⟨h.restoreTo hnone (h.snapshots name target hn) hle, ?_⟩
    obtain ⟨wal, snapshots, hs', -⟩ := restoreTo_state hnone hle
    rw [hs']
    exact hx

end Transactions

end RyuDB.Engine

/-! ## 4. Worlds -/

namespace RyuDB.World

open Engine

variable {V : Type} [DecidableEq V]

/-- A sound engine without a cleared primary key, and well-shaped open transactions. -/
structure Settled (w : World V) : Prop where
  eng : Sound w.eng
  keyed : ∀ t, Keyed w.eng t
  txns : ∀ c, TxnOk? w.eng.catalog (w.txns.get? c)

/-- Requests of connections that leave the cached frames alone, without a restart of the process. -/
def Live : Step V → Prop
  | .restart => False
  | a => a.LeavesCache

/-- A statement does not touch the catalog, the saved catalog or the files. -/
theorem effect_fixed {H : Host V} {st : Stmt V} {s s' : Session V} (he : Effect H st s s') :
    s'.eng.catalog = s.eng.catalog ∧ s'.eng.disk.parquet = s.eng.disk.parquet ∧
      s'.eng.disk.catalog = s.eng.disk.catalog := by
  cases he with
  | quiet hq => exact ⟨hq.catalog, by rw [hq.disk], by rw [hq.disk]⟩
  | @write s₁ t w bs hx hq hbs ht hw =>
    have hwrote := writeCommit_wrote H bs s₁
    generalize writeCommit H bs s₁ = p at hwrote
    cases hwrote <;> exact ⟨hq.catalog, by rw [← hq.disk], by rw [← hq.disk]⟩
  | buffer hx hq hu hd hw => exact ⟨hq.catalog, by rw [← hq.disk], by rw [← hq.disk]⟩
  | begin _ hx => exact ⟨rfl, rfl, rfl⟩
  | @commit x hst hx =>
    have hwrote := writeCommit_wrote H (commitBatches H x) s
    rw [commit_of_txn H hx]
    generalize writeCommit H (commitBatches H x) s = p at hwrote
    cases hwrote <;> exact ⟨rfl, rfl, rfl⟩
  | rollback hx => exact ⟨rfl, rfl, rfl⟩
  | snapshot name => exact ⟨rfl, rfl, rfl⟩
  | restore hst hx hn hle =>
    obtain ⟨wal, snapshots, hs', -⟩ := restoreTo_state hx hle
    rw [hs']
    exact ⟨rfl, rfl, rfl⟩

theorem effect_catalog {H : Host V} {st : Stmt V} {s s' : Session V} (he : Effect H st s s') :
    s'.eng.catalog = s.eng.catalog := (effect_fixed he).1

theorem settled_step {H : Host V} (w : World V) (a : Step V) (h : Settled w) (ha : Live a) :
    Settled (w.step H a) := by
  cases a with
  | sql c st faults =>
    obtain ⟨s', he, hs'⟩ := World.sql_effect H h.eng.ok.coherent c st ha
    obtain ⟨hsound, htxn⟩ := effect_sound he h.eng ha (h.txns c) fun t _ => h.keyed t
    change Settled (w.sql H c st faults).2
    rw [hs']
    refine ⟨hsound, fun t => ?_, fun d => ?_⟩
    · rw [store_eng, Keyed, effect_catalog he]
      exact h.keyed t
    · rw [store_txns]
      split
      · exact htxn
      · rw [store_eng, effect_catalog he]
        exact h.txns d
  | disconnect c =>
    refine ⟨h.eng, h.keyed, fun d y hy => ?_⟩
    rw [step, Dict.get?_erase] at hy
    split at hy
    · cases hy
    · exact h.txns d y hy
  | restart => exact ha.elim

/-- SQL leaves the catalog alone. -/
theorem catalog_step {H : Host V} {w : World V} (h : Settled w) {a : Step V} (ha : Live a) :
    (w.step H a).eng.catalog = w.eng.catalog := by
  cases a with
  | sql c st faults =>
    obtain ⟨s', he, hs'⟩ := World.sql_effect H h.eng.ok.coherent c st ha
    change (w.sql H c st faults).2.eng.catalog = _
    rw [hs', store_eng]
    exact effect_catalog he
  | disconnect c => rfl
  | restart => exact ha.elim

/-- **Every world reached from a settled one is settled.** -/
theorem settled_run {H : Host V} {w : World V} (h : Settled w) {l : List (Step V)}
    (hl : ∀ a ∈ l, Live a) : Settled (Run.run (World.step H) w l) := by
  have hlive : Run.Along (World.step H) (fun _ a => Live a) w l := Run.Along.of_forall hl
  exact hlive.invariant settled_step h

/-- A run of SQL leaves the catalog alone. -/
theorem catalog_run {H : Host V} {w : World V} (h : Settled w) {l : List (Step V)}
    (hl : ∀ a ∈ l, Live a) : (Run.run (World.step H) w l).eng.catalog = w.eng.catalog := by
  have hlive : Run.Along (World.step H) (fun _ a => Live a) w l := Run.Along.of_forall hl
  refine (hlive.invariant (P := fun w' => Settled w' ∧ w'.eng.catalog = w.eng.catalog) ?_
    ⟨h, rfl⟩).2
  rintro w' a ⟨hw', hcat⟩ ha
  exact ⟨settled_step w' a hw' ha, by rw [catalog_step hw' ha, hcat]⟩

end RyuDB.World
