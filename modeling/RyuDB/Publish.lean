/-
# COMMIT publishes what the transaction saw

Before COMMIT a read merges the buffer of the transaction at the sentinel timestamp `insInf`, from
the transaction; afterwards it merges the same batches at the commit timestamp, from the delta.
Replacing the sentinel by the commit timestamp (`stamp`) changes no comparison as long as both are
above everything committed, so the read returns the same (`glance_commit`), whatever the shape of
the batches and whatever the cache holds.

The commit timestamp is one more than the counter, and base rows count as inserted at 0: below that
the sentinel and the timestamp fall apart.  Only a restore to a negative timestamp leads there;
`commit_publishes` says exactly what then becomes of the rows.

`insInf` stands for a timestamp that is not known yet.  It works because it is above everything
committed, like the timestamp that will replace it, and because a merge compares timestamps and does
nothing else with them.
-/
import RyuDB.Restart

namespace RyuDB.Engine

open Versioned

variable {V : Type}

/-! ## 1. The sentinel and the commit timestamp -/

theorem insInf_pos : 0 < insInf := by decide

/-- `c` in place of the sentinel. -/
def stamp (c ts : Int) : Int := if ts = insInf then c else ts

theorem stamp_insInf (c : Int) : stamp c insInf = c := if_pos rfl

theorem stamp_lt {c ts : Int} (h : ts < insInf) : stamp c ts = ts := if_neg (by omega)

/-- An insert batch with the timestamp it gets. -/
def stampBatch (c : Int) (b : Int × Frame V) : Int × Frame V := (stamp c b.1, b.2)

/-- A tombstone with the timestamp it gets. -/
def stampTomb (c : Int) (b : Int × Frame V × Bool) : Int × Frame V × Bool := (stamp c b.1, b.2)

section Stamp

variable {cols pk : List String} {c : Int}

theorem tagAll_stamp : ∀ l : List (Int × Frame V), tagAll cols (l.map (stampBatch c)) =
    (tagAll cols l).map (List.map (List.map (retag (stamp c))))
  | [] => rfl
  | b :: l => by
    have ih := tagAll_stamp l
    rw [List.map_cons, tagAll, tagAll, ih]
    unfold tagBatch
    simp only [stampBatch]
    cases b.2.select cols with
    | error x => rfl
    | ok f =>
      cases tagAll cols l with
      | error x => rfl
      | ok ps => simp [bind, Except.bind, pure, Except.pure, Except.map, retag, Function.comp_def]

/-- A tombstone key with the timestamp it gets. -/
def stampKey (c : Int) (k : Int × Key V × Bool) : Int × Key V × Bool := (stamp c k.1, k.2)

theorem tombKeys_stamp : ∀ l : List (Int × Frame V × Bool), tombKeys pk (l.map (stampTomb c)) =
    (tombKeys pk l).map (List.map (stampKey c))
  | [] => rfl
  | (ts, f, fl) :: l => by
    have ih := tombKeys_stamp l
    rw [List.map_cons, stampTomb, tombKeys, tombKeys, ih]
    cases f.select pk with
    | error x => rfl
    | ok g =>
      cases tombKeys pk l with
      | error x => rfl
      | ok ks => simp [Except.map, stampKey, Function.comp_def]

theorem tombsFlagged_stamp (fl : Bool) (ks : List (Int × Key V × Bool)) :
    tombsFlagged fl (ks.map (stampKey c)) = (tombsFlagged fl ks).map (retomb (stamp c)) := by
  unfold tombsFlagged
  rw [List.filter_map, List.map_map, List.map_map]
  rfl

end Stamp

/-! ## 2. The merge -/

/-- A timestamp below both, or the sentinel itself. -/
def Stampable (c ts : Int) : Prop := (ts < c ∧ ts < insInf) ∨ ts = insInf

section Compare

variable {c a v : Int}

theorem stamp_lt_stamp (hv : Stampable c v) (ha : Stampable c a) :
    stamp c v < stamp c a ↔ v < a := by
  rcases hv with ⟨hv, hv'⟩ | rfl <;> rcases ha with ⟨ha, ha'⟩ | rfl
  · rw [stamp_lt hv', stamp_lt ha']
  · rw [stamp_lt hv', stamp_insInf]
    exact iff_of_true hv hv'
  · rw [stamp_lt ha', stamp_insInf]
    exact iff_of_false (by omega) (by omega)
  · simp

theorem stamp_le_stamp (hv : Stampable c v) (ha : Stampable c a) :
    stamp c v ≤ stamp c a ↔ v ≤ a := by
  rw [← not_lt, stamp_lt_stamp ha hv, not_lt]

theorem stamp_nonneg (hc : 0 ≤ c) (ha : 0 ≤ a) : 0 ≤ stamp c a := by
  unfold stamp
  split <;> omega

end Compare

section Tags

variable {cols pk : List String}

/-- The tags of the merged rows are those of the batches. -/
theorem tagAll_tags : ∀ {l : List (Int × Frame V)} {ps : List (List (Int × Row V))},
    tagAll cols l = .ok ps → ∀ y ∈ ps.flatten, ∃ b ∈ l, y.1 = b.1
  | [], ps, h, y, hy => by
    cases h
    cases hy
  | b :: l, ps, h, y, hy => by
    unfold tagAll tagBatch at h
    cases hf : b.2.select cols with
    | error x =>
      rw [hf] at h
      cases h
    | ok f =>
      cases hl : tagAll cols l with
      | error x =>
        rw [hf, hl] at h
        cases h
      | ok qs =>
        rw [hf, hl] at h
        cases h
        rcases List.mem_append.mp hy with hy | hy
        · obtain ⟨r, -, rfl⟩ := List.mem_map.mp hy
          exact ⟨b, List.mem_cons_self, rfl⟩
        · obtain ⟨b', hb', heq⟩ := tagAll_tags hl y hy
          exact ⟨b', List.mem_cons_of_mem _ hb', heq⟩

theorem tombKeys_tags : ∀ {l : List (Int × Frame V × Bool)} {ks : List (Int × Key V × Bool)},
    tombKeys pk l = .ok ks → ∀ k ∈ ks, ∃ b ∈ l, k.1 = b.1
  | [], ks, h, k, hk => by
    cases h
    cases hk
  | (ts, f, fl) :: l, ks, h, k, hk => by
    unfold tombKeys at h
    cases hf : f.select pk with
    | error x =>
      rw [hf] at h
      cases h
    | ok g =>
      cases hl : tombKeys pk l with
      | error x =>
        rw [hf, hl] at h
        cases h
      | ok js =>
        rw [hf, hl] at h
        cases h
        rcases List.mem_append.mp hk with hk | hk
        · obtain ⟨r, -, rfl⟩ := List.mem_map.mp hk
          exact ⟨(ts, f, fl), List.mem_cons_self, rfl⟩
        · obtain ⟨b', hb', heq⟩ := tombKeys_tags hl k hk
          exact ⟨b', List.mem_cons_of_mem _ hb', heq⟩

end Tags

section Merge

variable [DecidableEq V] {c : Int} {cat : Catalog V} {t : String}

/-- The rows that survive the tombstones are the same rows. -/
theorem applyTombs_stamp (hc : 0 ≤ c) {pk : Except DbError (Option (List String))}
    {cols : List String} {tomb : List (Int × Frame V × Bool)} (htomb : ∀ b ∈ tomb, Stampable c b.1)
    {merged : List (Int × Row V)} (hrows : ∀ y ∈ merged, Stampable c y.1 ∧ 0 ≤ y.1) :
    applyTombs pk cols (tomb.map (stampTomb c)) (merged.map (retag (stamp c))) =
      (applyTombs pk cols tomb merged).map (List.map (retag (stamp c))) := by
  unfold applyTombs
  rw [List.isEmpty_map]
  split
  · rfl
  · cases pk with
    | error x => rfl
    | ok pk =>
      cases pk with
      | none => rfl
      | some pk =>
        simp only [tombKeys_stamp]
        cases hks : tombKeys pk tomb with
        | error x => rfl
        | ok ks =>
          have hkeys : ∀ k ∈ ks, Stampable c k.1 := by
            intro k hk
            obtain ⟨b, hb, heq⟩ := tombKeys_tags hks k hk
            rw [heq]
            exact htomb b hb
          have hflag : ∀ fl, ∀ e ∈ tombsFlagged fl ks, Stampable c e.2 := by
            intro fl e he
            obtain ⟨k, hk, rfl⟩ := List.mem_map.mp he
            exact hkeys k (List.mem_of_mem_filter hk)
          simp only [Except.map, antiJoin, List.isEmpty_map, tombsFlagged_stamp]
          split
          · rfl
          · split
            · rw [collapse_retag (fun y hy => ⟨(hrows y hy).2, stamp_nonneg hc (hrows y hy).2⟩)
                (fun y hy e he => stamp_lt_stamp (hflag false e he) (hrows y hy).1)
                (fun y hy e he => stamp_le_stamp (hflag true e he) (hrows y hy).1)]
            · rfl

/-- **Replacing the sentinel by a timestamp above everything committed changes no merge.** -/
theorem mergePure_stamp (hc : 1 ≤ c) (base : Frame V) {ins : List (Int × Frame V)}
    {tomb : List (Int × Frame V × Bool)} (hins : ∀ b ∈ ins, Stampable c b.1 ∧ 0 ≤ b.1)
    (htomb : ∀ b ∈ tomb, Stampable c b.1) :
    mergePure cat t base (ins.map (stampBatch c)) (tomb.map (stampTomb c)) =
      mergePure cat t base ins tomb := by
  unfold mergePure
  rw [List.isEmpty_map, List.isEmpty_map, tagAll_stamp]
  split
  · rfl
  · cases hps : tagAll base.columns ins with
    | error x => rfl
    | ok ps =>
      have hzero : stamp c 0 = 0 := stamp_lt insInf_pos
      have hmerged : (base.rows.map fun r => ((0 : Int), r)) ++
          (ps.map (List.map (retag (stamp c)))).flatten =
            ((base.rows.map fun r => ((0 : Int), r)) ++ ps.flatten).map (retag (stamp c)) := by
        rw [List.map_append, List.map_map, List.map_flatten]
        simp [Function.comp_def, retag, hzero]
      have hrows : ∀ y ∈ (base.rows.map fun r => ((0 : Int), r)) ++ ps.flatten,
          Stampable c y.1 ∧ 0 ≤ y.1 := by
        intro y hy
        rcases List.mem_append.mp hy with hy | hy
        · obtain ⟨r, -, rfl⟩ := List.mem_map.mp hy
          exact ⟨Or.inl ⟨by omega, insInf_pos⟩, le_refl _⟩
        · obtain ⟨b, hb, heq⟩ := tagAll_tags hps y hy
          rw [heq]
          exact hins b hb
      simp only [Except.map, bind, Except.bind, hmerged, applyTombs_stamp (by omega) htomb hrows]
      cases applyTombs (primaryKeyOf cat t) base.columns tomb
        ((base.rows.map fun r => ((0 : Int), r)) ++ ps.flatten) with
      | error x => rfl
      | ok kept => simp [Function.comp_def, retag]

end Merge

/-! ## 3. COMMIT and ROLLBACK -/

/-- Nothing was committed after the snapshot of the transaction, and committed timestamps are not
negative. -/
structure Undisturbed (e : Engine V) (x : Transaction V) : Prop where
  snapshot : x.snapshotTs ≤ e.commitTs
  ins : ∀ t, ∀ b ∈ e.delta.batchesWithTs t, 0 ≤ b.1 ∧ b.1 ≤ x.snapshotTs
  tomb : ∀ t, ∀ b ∈ e.delta.tombstonesWithTs t, 0 ≤ b.1 ∧ b.1 ≤ x.snapshotTs

section Commit

variable {H : Host V} {e : Engine V} {x : Transaction V} {q : Faults} {s' : Session V}

/-- The engine after a COMMIT that returned. -/
theorem commit_state (hc : commit H ⟨e, some x, q⟩ = (.ok (), s')) : ∃ wal,
    s'.eng = { e with
      commitTs := e.commitTs + 1
      disk := { e.disk with wal := wal }
      delta := e.delta.addAll (e.commitTs + 1) (commitBatches H x) } := by
  rw [commit_of_txn H rfl] at hc
  rcases hw : Wal.writeCommit H e.walEnabled e.disk.wal q.append (e.commitTs + 1)
    (commitBatches H x) with ⟨r, wal⟩
  cases r with
  | error y =>
    rw [writeCommit_error H (s := ⟨e, some x, q⟩) hw] at hc
    cases hc
  | ok u =>
    rw [writeCommit_ok H (s := ⟨e, some x, q⟩) hw] at hc
    cases hc
    exact ⟨wal, rfl⟩

/-- COMMIT leaves catalog, files and cache alone. -/
theorem commit_kept (hc : commit H ⟨e, some x, q⟩ = (.ok (), s')) :
    s'.eng.catalog = e.catalog ∧ s'.eng.disk.parquet = e.disk.parquet ∧
      s'.eng.scanCache = e.scanCache ∧
      s'.eng.delta = e.delta.addAll (e.commitTs + 1) (commitBatches H x) := by
  obtain ⟨wal, he⟩ := commit_state hc
  rw [he]
  exact ⟨rfl, rfl, rfl, rfl⟩

/-- What a read merges after COMMIT is what it merged before, with the commit timestamp in place of
the sentinel. -/
theorem commit_entries (hx : Undisturbed e x) (hinf : e.commitTs < insInf)
    (hd : s'.eng.delta = e.delta.addAll (e.commitTs + 1) (commitBatches H x)) (t : String) :
    insertEntries ⟨s'.eng, none, {}⟩ t =
        (insertEntries ⟨e, some x, {}⟩ t).map (stampBatch (e.commitTs + 1)) ∧
      tombEntries ⟨s'.eng, none, {}⟩ t =
        (tombEntries ⟨e, some x, {}⟩ t).map (stampTomb (e.commitTs + 1)) := by
  obtain ⟨hins, htomb⟩ := commitBatches_carries H x t
  have hsnap := hx.snapshot
  constructor
  · have hold : (e.delta.batchesWithTs t).filter (fun b => decide (b.1 ≤ x.snapshotTs)) =
        e.delta.batchesWithTs t :=
      List.filter_eq_self.mpr fun b hb => decide_eq_true (hx.ins t b hb).2
    have hsame : (e.delta.batchesWithTs t).map (stampBatch (e.commitTs + 1)) =
        e.delta.batchesWithTs t := by
      refine (List.map_congr_left fun b hb => ?_).trans (List.map_id _)
      have := (hx.ins t b hb).2
      exact Prod.ext (stamp_lt (by omega)) rfl
    simp only [insertEntries, hd, DeltaStore.batchesWithTs_addAll, DeltaStore.batchesAtWithTs_eq,
      hold, hins, List.map_append, hsame, List.map_map]
    rfl
  · have hold : (e.delta.tombstonesWithTs t).filter (fun b => decide (b.1 ≤ x.snapshotTs)) =
        e.delta.tombstonesWithTs t :=
      List.filter_eq_self.mpr fun b hb => decide_eq_true (hx.tomb t b hb).2
    have hsame : (e.delta.tombstonesWithTs t).map (stampTomb (e.commitTs + 1)) =
        e.delta.tombstonesWithTs t := by
      refine (List.map_congr_left fun b hb => ?_).trans (List.map_id _)
      have := (hx.tomb t b hb).2
      exact Prod.ext (stamp_lt (by omega)) rfl
    simp only [tombEntries, hd, DeltaStore.tombstonesWithTs_addAll,
      DeltaStore.tombstonesAtWithTs_eq, hold, htomb, List.map_append, hsame, List.map_map]
    rfl

/-- The timestamps a read in the transaction compares. -/
theorem entries_stampable (hx : Undisturbed e x) (hinf : e.commitTs < insInf) (t : String) :
    (∀ b ∈ insertEntries ⟨e, some x, {}⟩ t, Stampable (e.commitTs + 1) b.1 ∧ 0 ≤ b.1) ∧
      ∀ b ∈ tombEntries ⟨e, some x, {}⟩ t, Stampable (e.commitTs + 1) b.1 := by
  have hsnap := hx.snapshot
  constructor
  · intro b hb
    rcases List.mem_append.mp hb with hb | hb
    · have := hx.ins t b (List.mem_of_mem_filter hb)
      exact ⟨Or.inl ⟨by omega, by omega⟩, this.1⟩
    · obtain ⟨f, -, rfl⟩ := List.mem_map.mp hb
      exact ⟨Or.inr rfl, insInf_nonneg⟩
  · intro b hb
    rcases List.mem_append.mp hb with hb | hb
    · have := hx.tomb t b (List.mem_of_mem_filter hb)
      exact Or.inl ⟨by omega, by omega⟩
    · obtain ⟨f, -, rfl⟩ := List.mem_map.mp hb
      exact Or.inr rfl

/-- COMMIT moves what is pending from the transaction to the delta. -/
theorem commit_pending
    (hd : s'.eng.delta = e.delta.addAll (e.commitTs + 1) (commitBatches H x)) (t : String) :
    hasPending ⟨s'.eng, none, {}⟩ t = hasPending ⟨e, some x, {}⟩ t ∧
      hasTomb ⟨s'.eng, none, {}⟩ t = hasTomb ⟨e, some x, {}⟩ t := by
  obtain ⟨hins, htomb⟩ := commitBatches_carries H x t
  constructor
  · rw [Bool.eq_iff_iff]
    simp only [hasPending, Bool.or_false, Bool.or_eq_true, hd, DeltaStore.hasUnflushed_iff,
      Transaction.has_iff, DeltaStore.batchesWithTs_addAll, DeltaStore.tombstonesWithTs_addAll,
      hins, htomb, ne_eq, List.append_eq_nil_iff, List.map_eq_nil_iff]
    tauto
  · rw [Bool.eq_iff_iff]
    simp only [hasTomb, Bool.or_false, Bool.or_eq_true, hd, DeltaStore.hasTombstones_iff,
      Transaction.hasTombstone_iff, DeltaStore.tombstonesWithTs_addAll, htomb, ne_eq,
      List.append_eq_nil_iff, List.map_eq_nil_iff]
    tauto

variable [DecidableEq V]

/-- **A read after COMMIT returns what a read in the transaction returned before it.** -/
theorem glance_commit (hx : Undisturbed e x) (hinf : e.commitTs < insInf) (h0 : 0 ≤ e.commitTs)
    (hc : commit H ⟨e, some x, q⟩ = (.ok (), s')) (t : String) (columns : Option (List String)) :
    glance s'.eng none t columns = glance e (some x) t columns := by
  obtain ⟨hcat, hfiles, hcache, hd⟩ := commit_kept hc
  have hfull : ∀ cols, lookBase s'.eng t cols = lookBase e t cols := by
    intro cols
    rw [lookBase, lookBase, hcat, hfiles]
  have hbase : ∀ cols, cachedBase s'.eng t cols = cachedBase e t cols := by
    intro cols
    rw [cachedBase, cachedBase, hcache, hfull]
  obtain ⟨hins, htomb⟩ := commit_entries hx hinf hd t
  obtain ⟨hpend, hht⟩ := commit_pending hd t
  obtain ⟨hsi, hst⟩ := entries_stampable hx hinf t
  have hmerge : ∀ b : Frame V, mergePure s'.eng.catalog t b (insertEntries ⟨s'.eng, none, {}⟩ t)
      (tombEntries ⟨s'.eng, none, {}⟩ t) = mergePure e.catalog t b
        (insertEntries ⟨e, some x, {}⟩ t) (tombEntries ⟨e, some x, {}⟩ t) := by
    intro b
    rw [hins, htomb, hcat]
    exact mergePure_stamp (by omega) b hsi hst
  unfold glance
  simp only [hbase, hfull, hpend, hht, hmerge]

/-- **ROLLBACK shows the rows of the snapshot.** -/
theorem glance_rollback (hx : Undisturbed e x) (t : String) (columns : Option (List String)) :
    glance e none t columns = glance e (some { snapshotTs := x.snapshotTs }) t columns := by
  have hins : insertEntries ⟨e, some { snapshotTs := x.snapshotTs }, {}⟩ t =
      insertEntries ⟨e, none, {}⟩ t := by
    have hold : (e.delta.batchesWithTs t).filter (fun b => decide (b.1 ≤ x.snapshotTs)) =
        e.delta.batchesWithTs t :=
      List.filter_eq_self.mpr fun b hb => decide_eq_true (hx.ins t b hb).2
    simp only [insertEntries, DeltaStore.batchesAtWithTs_eq, hold]
    exact List.append_nil _
  have htomb : tombEntries ⟨e, some { snapshotTs := x.snapshotTs }, {}⟩ t =
      tombEntries ⟨e, none, {}⟩ t := by
    have hold : (e.delta.tombstonesWithTs t).filter (fun b => decide (b.1 ≤ x.snapshotTs)) =
        e.delta.tombstonesWithTs t :=
      List.filter_eq_self.mpr fun b hb => decide_eq_true (hx.tomb t b hb).2
    simp only [tombEntries, DeltaStore.tombstonesAtWithTs_eq, hold]
    exact List.append_nil _
  have hpend : hasPending ⟨e, some { snapshotTs := x.snapshotTs }, {}⟩ t =
      hasPending ⟨e, none, {}⟩ t := rfl
  have hht : hasTomb ⟨e, some { snapshotTs := x.snapshotTs }, {}⟩ t = hasTomb ⟨e, none, {}⟩ t := rfl
  unfold glance
  simp only [hins, htomb, hpend, hht]

end Commit

/-! ## 4. Counters below zero

At -1 the commit gets the timestamp 0 of the base rows, and the tombstone of an UPDATE spares the base
row it was written for.  Below that no tombstone of the commit reaches a base row.  `LandsOn` says for
which write sets neither matters. -/

section Exact

variable [DecidableEq V] {H : Host V} {e : Engine V} {x : Transaction V} {q : Faults}
  {s' : Session V} {t : String} {i : TableInfo V}

/-- The writes of the transaction to a table come out right: the counter is not negative, or nothing
hangs on it.  At -1 the commit gets the timestamp of the base rows, below that an older one. -/
def LandsOn (e : Engine V) (x : Transaction V) (t : String) (i : TableInfo V) : Prop :=
  0 ≤ e.commitTs ∨
    (e.commitTs = -1 ∧ ∀ r ∈ baseRows e i,
      keyOf (keyCols i) r ∈ keysOf (keyCols i) true (x.tombstoneBatchesWithFlag t) →
        keyOf (keyCols i) r ∈ keysOf (keyCols i) false (x.tombstoneBatchesWithFlag t)) ∨
    (e.commitTs < -1 ∧ (x.tombstoneBatchesWithFlag t = [] ∨
      visibleIn e x t = .ok (baseRows e i)))

omit [DecidableEq V] in
/-- Below zero nothing is committed. -/
theorem Undisturbed.empty (hx : Undisturbed e x) (h0 : e.commitTs < 0) (t : String) :
    e.delta.batchesWithTs t = [] ∧ e.delta.tombstonesWithTs t = [] := by
  have hsnap := hx.snapshot
  constructor
  · refine List.eq_nil_iff_forall_not_mem.mpr fun b hb => ?_
    have := hx.ins t b hb
    omega
  · refine List.eq_nil_iff_forall_not_mem.mpr fun b hb => ?_
    have := hx.tomb t b hb
    omega

/-- The rows in the transaction when nothing is committed: the base rows it does not name, and its
own rows less those it deletes. -/
theorem visibleIn_alone (hok : EngineOk e) (hxok : TxnOk e.catalog x) (hx : Undisturbed e x)
    (h0 : e.commitTs < 0) (hi : e.catalog.tables.get? t = some i) :
    visibleIn e x t = .ok ((baseRows e i).filter (fun r =>
        decide (keyOf (keyCols i) r ∉ keysOf (keyCols i) false (x.tombstoneBatchesWithFlag t) ∧
          keyOf (keyCols i) r ∉ keysOf (keyCols i) true (x.tombstoneBatchesWithFlag t))) ++
      (ownRows x t).filter fun r =>
        decide (keyOf (keyCols i) r ∉ keysOf (keyCols i) false (x.tombstoneBatchesWithFlag t))) := by
  have hsnap := hx.snapshot
  obtain ⟨hb, ht⟩ := hx.empty h0 t
  have hinf : x.snapshotTs < insInf := by
    have := insInf_pos
    omega
  have hbase : seen e (some { snapshotTs := x.snapshotTs }) t =
      atZero (baseRows e i) := by
    unfold seen
    rw [hi]
    simp only [insertEntries, tombEntries, DeltaStore.batchesAtWithTs_eq,
      DeltaStore.tombstonesAtWithTs_eq, Transaction.bufferBatches_new,
      Transaction.tombstoneBatches_new, hb, ht, List.filter_nil, List.map_nil, List.append_nil,
      seenOf, tombPairs_nil, tagRows_nil]
    refine collapse_nil fun y hy => ?_
    obtain ⟨r, -, rfl⟩ := List.mem_map.mp hy
    exact le_refl _
  rw [visibleIn_seen hok hxok hi, seen_txn hok.delta x hinf hi, overlay_map, hbase, atZero,
    List.filter_map, List.map_map]
  congr 2
  exact List.map_id _

/-- Without tombstones the timestamps of the batches do not matter. -/
theorem mergePure_untombed {cat : Catalog V} (c : Int) (base : Frame V)
    (ins : List (Int × Frame V)) :
    mergePure cat t base (ins.map (stampBatch c)) [] = mergePure cat t base ins [] := by
  unfold mergePure
  rw [List.isEmpty_map, tagAll_stamp]
  split
  · rfl
  · cases tagAll base.columns ins with
    | error x => rfl
    | ok ps =>
      simp [Except.map, bind, Except.bind, pure, Except.pure, applyTombs, Function.comp_def, retag,
        List.map_flatten]

/-- A table without tombstones shows the same rows whatever the commit timestamp is. -/
theorem visible_commit_untombed (hok : EngineOk e) (hx : Undisturbed e x)
    (hinf : e.commitTs < insInf) (hc : commit H ⟨e, some x, q⟩ = (.ok (), s'))
    (hi : e.catalog.tables.get? t = some i) (hd0 : e.delta.tombstonesWithTs t = [])
    (hx0 : x.tombstoneBatchesWithFlag t = []) : visible s'.eng t = visibleIn e x t := by
  obtain ⟨hcat, hfiles, hcache, hd⟩ := commit_kept hc
  have hco : Coherent s'.eng := by
    rw [Coherent, hcat, hfiles, hcache]
    exact hok.coherent
  have hi' : s'.eng.catalog.tables.get? t = some i := by rw [hcat, hi]
  obtain ⟨hins, htomb⟩ := commit_entries hx hinf hd t
  have hnone : tombEntries ⟨e, some x, {}⟩ t = [] := by
    simp only [tombEntries, DeltaStore.tombstonesAtWithTs_eq, hd0, hx0, List.filter_nil,
      List.map_nil, List.append_nil]
  rw [visible_eq hco, visibleIn_eq hok.coherent, look_none, look_none, lookBase_ok hi',
    lookBase_ok hi, hfiles, hcat, hins, htomb, hnone]
  simp only [List.map_nil, mergePure_untombed]

/-- A read after a COMMIT that found nothing committed. -/
theorem visible_alone (hok : EngineOk e) (hxok : TxnOk e.catalog x) (hx : Undisturbed e x)
    (h0 : e.commitTs < 0) (hc : commit H ⟨e, some x, q⟩ = (.ok (), s'))
    (hi : e.catalog.tables.get? t = some i)
    (hnn : x.tombstoneBatchesWithFlag t = [] → 0 ≤ e.commitTs + 1) :
    visible s'.eng t = .ok ((collapse (keyOf (keyCols i))
      (atZero (baseRows e i) ++ (ownRows x t).map fun r => (e.commitTs + 1, r))
      ((keysOf (keyCols i) false (x.tombstoneBatchesWithFlag t)).map fun k => (k, e.commitTs + 1))
      ((keysOf (keyCols i) true (x.tombstoneBatchesWithFlag t)).map fun k =>
        (k, e.commitTs + 1))).map Prod.snd) := by
  obtain ⟨hb, ht⟩ := hx.empty h0 t
  obtain ⟨hins, htomb⟩ := commitBatches_carries H x t
  obtain ⟨b, hbase, hbc⟩ := hok.base t i hi
  obtain ⟨hcat, hfiles, hcache, hd⟩ := commit_kept hc
  have hco : Coherent s'.eng := by
    rw [Coherent, hcat, hfiles, hcache]
    exact hok.coherent
  have hi' : s'.eng.catalog.tables.get? t = some i := by rw [hcat, hi]
  rw [visible_eq hco, look_none, lookBase_ok hi', hfiles, hbase, hcat]
  simp only [insertEntries, tombEntries, hd, DeltaStore.batchesWithTs_addAll,
    DeltaStore.tombstonesWithTs_addAll, hb, ht, hins, htomb, List.nil_append]
  have hinsOk : ∀ y ∈ (x.bufferBatches t).map fun f => (e.commitTs + 1, f),
      InsOk e.catalog t y.2 := by
    intro y hy
    obtain ⟨f, hf, rfl⟩ := List.mem_map.mp hy
    exact hxok.ins t f hf
  have htombOk : ∀ y ∈ (x.tombstoneBatchesWithFlag t).map fun g => (e.commitTs + 1, g.1, g.2),
      TombOk e.catalog t y.2.1 := by
    intro y hy
    obtain ⟨g, hg, rfl⟩ := List.mem_map.mp hy
    exact hxok.tomb t g hg
  obtain ⟨f, hf, -, hfr⟩ := mergePure_shaped hi hbc hinsOk htombOk (by
    intro hnil y hy
    obtain ⟨f, hf, rfl⟩ := List.mem_map.mp hy
    exact hnn (List.map_eq_nil_iff.mp hnil))
  have hrows : baseRows e i = b.rows := by rw [baseRows, hbase]
  rw [hrows]
  simp only [bind, Except.bind, hf, Except.map, hfr, seenOf, tagRows_tag, tombPairs_tag]
  rfl

/-- Of two filters the weaker keeps the same rows exactly when it keeps nothing more. -/
theorem filter_and_eq {α : Type} (l : List α) (p p' : α → Prop) [DecidablePred p]
    [DecidablePred p'] : l.filter (fun a => decide (¬ p a ∧ ¬ p' a)) =
      l.filter (fun a => decide (¬ p a)) ↔ ∀ a ∈ l, p' a → p a := by
  constructor
  · intro h a ha hp'
    by_contra hp
    have hmem : a ∈ l.filter fun a => decide (¬ p a) := List.mem_filter.mpr ⟨ha, by simpa using hp⟩
    rw [← h] at hmem
    have := (List.mem_filter.mp hmem).2
    simp only [decide_eq_true_eq] at this
    exact this.2 hp'
  · intro h
    refine List.filter_congr fun a ha => ?_
    simp only [decide_eq_decide]
    exact ⟨fun hp => hp.1, fun hp => ⟨hp, fun hp' => hp (h a ha hp')⟩⟩

/-- **What a COMMIT does to the rows of a table, exactly.** -/
theorem visible_commit_iff (hok : EngineOk e) (hxok : TxnOk e.catalog x) (hx : Undisturbed e x)
    (hinf : e.commitTs < insInf) (hc : commit H ⟨e, some x, q⟩ = (.ok (), s'))
    (hi : e.catalog.tables.get? t = some i) :
    visible s'.eng t = visibleIn e x t ↔ LandsOn e x t i := by
  rcases le_or_gt 0 e.commitTs with h0 | h0
  · refine iff_of_true ?_ (Or.inl h0)
    rw [visible_glance, visibleIn_glance, glance_commit hx hinf h0 hc]
  · have hpre := visibleIn_alone hok hxok hx h0 hi
    rcases eq_or_ne e.commitTs (-1) with h1 | h1
    · -- the commit gets the timestamp of the base rows
      have hzero : e.commitTs + 1 = 0 := by omega
      have hpost : visible s'.eng t = .ok ((baseRows e i).filter (fun r =>
          decide (keyOf (keyCols i) r ∉ keysOf (keyCols i) false
            (x.tombstoneBatchesWithFlag t))) ++ (ownRows x t).filter fun r =>
          decide (keyOf (keyCols i) r ∉ keysOf (keyCols i) false
            (x.tombstoneBatchesWithFlag t))) := by
        rw [visible_alone hok hxok hx h0 hc hi fun _ => by omega, hzero,
          show ((ownRows x t).map fun r => ((0 : Int), r)) = atZero (ownRows x t) from rfl,
          collapse_zero, ← atZero_append, atZero, List.filter_map, List.map_map,
          ← List.filter_append]
        simp only [Function.comp_def, List.map_id']
        congr!
      rw [hpost, hpre, Except.ok.injEq]
      refine (List.append_left_inj _).trans (eq_comm.trans ((filter_and_eq (baseRows e i)
        (fun r => keyOf (keyCols i) r ∈ keysOf (keyCols i) false (x.tombstoneBatchesWithFlag t))
        fun r => keyOf (keyCols i) r ∈ keysOf (keyCols i) true
          (x.tombstoneBatchesWithFlag t)).trans ?_))
      constructor
      · exact fun h => Or.inr (Or.inl ⟨h1, h⟩)
      · rintro (h | ⟨-, h⟩ | ⟨h, -⟩)
        · omega
        · exact h
        · omega
    · have hlt : e.commitTs < -1 := by omega
      by_cases hnil : x.tombstoneBatchesWithFlag t = []
      · refine iff_of_true ?_ (Or.inr (Or.inr ⟨hlt, Or.inl hnil⟩))
        exact visible_commit_untombed hok hx hinf hc hi ((hx.empty h0 t).2) hnil
      · -- the base rows are newer than the commit, and its rows older than no tombstone
        have hpost := visible_alone hok hxok hx h0 hc hi fun h => absurd h hnil
        rw [collapse_neg (by omega), atZero, List.map_map,
          show (Prod.snd ∘ fun r : Row V => ((0 : Int), r)) = id from rfl, List.map_id] at hpost
        rw [hpost]
        constructor
        · exact fun h => Or.inr (Or.inr ⟨hlt, Or.inr h.symm⟩)
        · rintro (h | ⟨h, -⟩ | ⟨-, h | h⟩)
          · omega
          · exact absurd h h1
          · exact absurd h hnil
          · exact h.symm

/-- **COMMIT publishes what the transaction saw.**  With nothing committed since the snapshot and a
counter that is not negative, every table reads after COMMIT as it read in the transaction before
it; in a well-shaped engine this holds exactly when the writes land on every table.  ROLLBACK shows
the rows of the snapshot. -/
theorem commit_publishes (hx : Undisturbed e x) (hinf : e.commitTs < insInf) (q : Faults) :
    (∀ s', commit H ⟨e, some x, q⟩ = (.ok (), s') →
      (0 ≤ e.commitTs → ∀ t, visible s'.eng t = visibleIn e x t) ∧
      (EngineOk e → TxnOk e.catalog x →
        ((∀ t i, e.catalog.tables.get? t = some i → visible s'.eng t = visibleIn e x t) ↔
          ∀ t i, e.catalog.tables.get? t = some i → LandsOn e x t i))) ∧
    ∀ t, visible (rollback ⟨e, some x, q⟩).2.eng t =
      visibleIn e { snapshotTs := x.snapshotTs } t := by
  refine ⟨fun s' hc => ⟨fun h0 t => ?_, fun hok hxok => ?_⟩, fun t => ?_⟩
  · rw [visible_glance, visibleIn_glance, glance_commit hx hinf h0 hc]
  · constructor
    · exact fun h t i hi => (visible_commit_iff hok hxok hx hinf hc hi).mp (h t i hi)
    · exact fun h t i hi => (visible_commit_iff hok hxok hx hinf hc hi).mpr (h t i hi)
  · change visible e t = _
    rw [visible_glance, visibleIn_glance, glance_rollback hx]

end Exact

/-! ## 5. An update after a restore below zero -/

/-- A table of the keys 1 and 2. -/
def keyedActs : List (Act Nat) :=
  [.upload "a" ⟨"d/uploads", "1.parquet"⟩ (some (keyParquet [1, 2])),
    .admin (.alter "a" (.pk ["k"])) {}]

/-- The engine with that table. -/
@[irreducible] def keyedEngine : Engine Nat := (World.fresh keyedActs).eng

/-- The same engine, restored to -1. -/
@[irreducible] def rewoundEngine : Engine Nat :=
  (World.fresh (keyedActs ++ [.admin (.restoreTo (-1)) {}])).eng

/-- The transaction of `UPDATE a SET k = 3 WHERE k = 1`. -/
def updateTxn (snapshotTs : Int) : Transaction Nat :=
  (({ snapshotTs := snapshotTs } : Transaction Nat).tombstoneAppend "a" (keyFrame [1])
    true).bufferAppend "a" (keyFrame [3])

/-- A transaction over an empty delta is undisturbed. -/
theorem undisturbed_of_empty {V : Type} {e : Engine V} {x : Transaction V}
    (hd : e.delta.tableNames = []) (hs : x.snapshotTs ≤ e.commitTs) : Undisturbed e x := by
  have hnone : ∀ t, e.delta.batchesWithTs t = [] ∧ e.delta.tombstonesWithTs t = [] := by
    intro t
    have h : ¬ e.delta.hasUnflushed t = true := by
      rw [← DeltaStore.mem_tableNames, hd]
      exact List.not_mem_nil
    rw [DeltaStore.hasUnflushed_iff, not_or, not_not, not_not] at h
    exact h
  refine ⟨hs, fun t b hb => ?_, fun t b hb => ?_⟩
  · rw [(hnone t).1] at hb
    cases hb
  · rw [(hnone t).2] at hb
    cases hb

set_option maxRecDepth 10000 in
/-- **After a restore to -1 an update keeps the old row.**  The commit gets timestamp 0, the one of
the base rows, and an UPDATE tombstone spares rows of its own timestamp. -/
theorem rewound_update : ∃ s', Undisturbed rewoundEngine (updateTxn (-1)) ∧
    commit natHost ⟨rewoundEngine, some (updateTxn (-1)), {}⟩ = (.ok (), s') ∧
    ¬ ∃ before after, visibleIn rewoundEngine (updateTxn (-1)) "a" = .ok before ∧
      visible s'.eng "a" = .ok after ∧ after.Perm before := by
  have hok : (commit natHost ⟨rewoundEngine, some (updateTxn (-1)), {}⟩).1.toBool = true := by
    with_unfolding_all decide
  obtain ⟨u, hu⟩ := exists_of_toBool hok
  have hts : rewoundEngine.commitTs = -1 := by with_unfolding_all decide
  refine ⟨_, undisturbed_of_empty (by with_unfolding_all decide) (le_of_eq hts.symm), Prod.ext hu rfl, ?_⟩
  have hb : World.column (visibleIn rewoundEngine (updateTxn (-1)) "a") = .ok [some 2, some 3] := by
    with_unfolding_all decide
  have ha : World.column (visible (commit natHost ⟨rewoundEngine, some (updateTxn (-1)), {}⟩).2.eng
      "a") = .ok [some 1, some 2, some 3] := by with_unfolding_all decide
  exact World.not_perm_of_column hb ha (by decide)

set_option maxRecDepth 10000 in
/-- The same update without the restore. -/
theorem commit_publishes_update : ∃ s',
    commit natHost ⟨keyedEngine, some (updateTxn 0), {}⟩ = (.ok (), s') ∧
    World.column (visible s'.eng "a") = .ok [some 2, some 3] ∧
    (∀ t, visible s'.eng t = visibleIn keyedEngine (updateTxn 0) t) ∧
    ∀ t, visible (rollback ⟨keyedEngine, some (updateTxn 0), {}⟩).2.eng t =
      visibleIn keyedEngine { snapshotTs := (updateTxn 0).snapshotTs } t := by
  have hok : (commit natHost ⟨keyedEngine, some (updateTxn 0), {}⟩).1.toBool = true := by
    with_unfolding_all decide
  obtain ⟨u, hu⟩ := exists_of_toBool hok
  have hts : keyedEngine.commitTs = 0 := by with_unfolding_all decide
  have hx : Undisturbed keyedEngine (updateTxn 0) :=
    undisturbed_of_empty (by with_unfolding_all decide) (le_of_eq hts.symm)
  have h := commit_publishes (H := natHost) hx (by rw [hts]; decide) {}
  exact ⟨_, Prod.ext hu rfl, by with_unfolding_all decide, (h.1 _ (Prod.ext hu rfl)).1 (le_of_eq hts.symm),
    h.2⟩

end RyuDB.Engine
