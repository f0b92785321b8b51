/-
# What writes and commits do to the rows in sight

`overlay` is the reader's view of one write set on top of other rows: the rows whose key a
tombstone names go, the inserted rows come, less those a DELETE tombstone of the same write set
names.  A read inside a transaction is the overlay of its buffer on the rows of its snapshot
(`seen_txn`), and a commit overlays its write set on the committed rows (`seen_commit`), with the
commit timestamp in place of the sentinel.  Both are one instance of `Versioned.collapse_snoc`
each.  Commits after a snapshot do not move what the snapshot shows (`seen_at_commit`).
-/
import RyuDB.Effect

namespace RyuDB.Engine

open Versioned

variable {V : Type}

/-! ## 1. The overlay of a write set -/

/-- The keys the tombstones of one kind name. -/
def keysOf (key : List String) (fl : Bool) (gs : List (Frame V × Bool)) : List (Key V) :=
  ((gs.filter fun g => decide (g.2 = fl)).flatMap fun g => g.1.rows.map (keyOf key)).filter
    Key.nonNull

/-- The rows a transaction inserted into `t`. -/
def ownRows (x : Transaction V) (t : String) : List (Row V) := (x.bufferBatches t).flatMap Frame.rows

theorem tombPairs_tag (key : List String) (fl : Bool) (ts : Int) (gs : List (Frame V × Bool)) :
    tombPairs key fl (gs.map fun g => (ts, g.1, g.2)) =
      (keysOf key fl gs).map fun k => (k, ts) := by
  rw [tombPairs, keysOf, List.filter_map, List.flatMap_map, List.filter_flatMap, List.map_flatMap]
  rfl

theorem tagRows_tag (ts : Int) (fs : List (Frame V)) :
    tagRows (fs.map fun f => (ts, f)) = (fs.flatMap Frame.rows).map fun r => (ts, r) := by
  rw [tagRows, List.flatMap_map, List.map_flatMap]

section Overlay

variable [DecidableEq V]

/-- The write set of `x` on `t`, with its rows tagged `ts`, over the rows `rows`. -/
def overlay (key : List String) (x : Transaction V) (t : String) (ts : Int)
    (rows : List (Int × Row V)) : List (Int × Row V) :=
  layer (keyOf key) ts (ownRows x t) (keysOf key false (x.tombstoneBatchesWithFlag t))
    (keysOf key true (x.tombstoneBatchesWithFlag t)) rows

/-- The rows of an overlay. -/
theorem overlay_map (key : List String) (x : Transaction V) (t : String) (ts : Int)
    (rows : List (Int × Row V)) : (overlay key x t ts rows).map Prod.snd =
      (rows.filter fun y => decide (keyOf key y.2 ∉ keysOf key false (x.tombstoneBatchesWithFlag t) ∧
        keyOf key y.2 ∉ keysOf key true (x.tombstoneBatchesWithFlag t))).map Prod.snd ++
      (ownRows x t).filter fun r =>
        decide (keyOf key r ∉ keysOf key false (x.tombstoneBatchesWithFlag t)) := by
  unfold overlay layer
  rw [List.map_append, List.map_map]
  simp [Function.comp_def]

/-- Entries tagged after all others are an overlay. -/
theorem seenOf_overlay {key : List String} {base : List (Row V)} {ins : List (Int × Frame V)}
    {tomb : List (Int × Frame V × Bool)} {ts : Int} (hts : 0 < ts)
    (hins : ∀ b ∈ ins, 0 ≤ b.1 ∧ b.1 < ts) (htomb : ∀ b ∈ tomb, b.1 < ts) (x : Transaction V)
    (t : String) :
    seenOf key base (ins ++ (x.bufferBatches t).map fun f => (ts, f))
        (tomb ++ (x.tombstoneBatchesWithFlag t).map fun g => (ts, g.1, g.2)) =
      overlay key x t ts (seenOf key base ins tomb) := by
  have hpairs : ∀ fl, ∀ e ∈ tombPairs key fl tomb, e.2 < ts := by
    intro fl e he
    obtain ⟨b, hb, he⟩ := List.mem_flatMap.mp he
    obtain ⟨k, -, rfl⟩ := List.mem_map.mp he
    exact htomb b (List.mem_of_mem_filter hb)
  have htags : ∀ y ∈ (base.map fun r => ((0 : Int), r)) ++ tagRows ins, 0 ≤ y.1 ∧ y.1 < ts := by
    intro y hy
    rcases List.mem_append.mp hy with hy | hy
    · obtain ⟨r, -, rfl⟩ := List.mem_map.mp hy
      exact ⟨le_refl _, hts⟩
    · obtain ⟨b, hb, hy⟩ := List.mem_flatMap.mp hy
      obtain ⟨r, -, rfl⟩ := List.mem_map.mp hy
      exact hins b hb
  unfold seenOf overlay
  rw [tagRows_append, tagRows_tag, tombPairs_append, tombPairs_append, tombPairs_tag,
    tombPairs_tag, ← List.append_assoc]
  exact collapse_snoc _ _ _ htags (by omega) (hpairs false) (hpairs true)

/-! ## 2. Reads inside a transaction -/

variable {e : Engine V} {t : String}

/-- **A read inside a transaction overlays the buffer on the snapshot.** -/
theorem seen_txn (h : DeltaOk e) (x : Transaction V) (hx : x.snapshotTs < insInf)
    {i : TableInfo V} (hi : e.catalog.tables.get? t = some i) :
    seen e (some x) t =
      overlay (keyCols i) x t insInf (seen e (some { snapshotTs := x.snapshotTs }) t) := by
  have hins : ∀ b ∈ (e.delta.batchesWithTs t).filter (fun b => decide (b.1 ≤ x.snapshotTs)),
      0 ≤ b.1 ∧ b.1 < insInf := by
    intro b hb
    obtain ⟨hb, hle⟩ := List.mem_filter.mp hb
    have := (h.ins t b hb).1
    simp only [decide_eq_true_eq] at hle
    omega
  have htomb : ∀ b ∈ (e.delta.tombstonesWithTs t).filter (fun b => decide (b.1 ≤ x.snapshotTs)),
      b.1 < insInf := by
    intro b hb
    obtain ⟨-, hle⟩ := List.mem_filter.mp hb
    simp only [decide_eq_true_eq] at hle
    omega
  unfold seen
  rw [hi]
  simp only [insertEntries, tombEntries, DeltaStore.batchesAtWithTs_eq,
    DeltaStore.tombstonesAtWithTs_eq, Transaction.bufferBatches_new,
    Transaction.tombstoneBatches_new, List.map_nil, List.append_nil]
  exact seenOf_overlay (by decide) hins htomb x t

/-! ## 3. Commits -/

/-- The engine after a commit of the batches `bs`: same catalog and files, the batches in the delta
under the next timestamp. -/
structure Committed (bs : List (Batch V)) (e e' : Engine V) : Prop where
  catalog : e'.catalog = e.catalog
  parquet : e'.disk.parquet = e.disk.parquet
  commitTs : e'.commitTs = e.commitTs + 1
  delta : e'.delta = e.delta.addAll (e.commitTs + 1) bs

omit [DecidableEq V] in
theorem baseRows_congr {e' : Engine V} (hf : e'.disk.parquet = e.disk.parquet) (i : TableInfo V) :
    baseRows e' i = baseRows e i := by
  rw [baseRows, baseRows, hf]

/-- **A commit overlays its write set on the committed rows.** -/
theorem seen_commit {e' : Engine V} {bs : List (Batch V)} {x : Transaction V} (h : DeltaOk e)
    (h0 : 0 ≤ e.commitTs) (hc : Committed bs e e') (hbs : Carries bs x) {i : TableInfo V}
    (hi : e.catalog.tables.get? t = some i) :
    seen e' none t = overlay (keyCols i) x t (e.commitTs + 1) (seen e none t) := by
  have hins : ∀ b ∈ e.delta.batchesWithTs t, 0 ≤ b.1 ∧ b.1 < e.commitTs + 1 := by
    intro b hb
    have := (h.ins t b hb).1
    omega
  have htomb : ∀ b ∈ e.delta.tombstonesWithTs t, b.1 < e.commitTs + 1 := by
    intro b hb
    have := (h.tomb t b hb).1
    omega
  unfold seen
  rw [hc.catalog, hi]
  simp only [insertEntries, tombEntries, hc.delta, DeltaStore.batchesWithTs_addAll,
    DeltaStore.tombstonesWithTs_addAll, (hbs t).1, (hbs t).2, baseRows_congr hc.parquet]
  exact seenOf_overlay (by omega) hins htomb x t

/-- Reading at `s` depends on what was committed up to `s`. -/
theorem seen_at_congr {e' : Engine V} {x : Transaction V} (hcat : e'.catalog = e.catalog)
    (hf : e'.disk.parquet = e.disk.parquet)
    (hb : e'.delta.batchesAtWithTs t x.snapshotTs = e.delta.batchesAtWithTs t x.snapshotTs)
    (ht : e'.delta.tombstonesAtWithTs t x.snapshotTs = e.delta.tombstonesAtWithTs t x.snapshotTs) :
    seen e' (some x) t = seen e (some x) t := by
  unfold seen
  rw [hcat]
  cases e.catalog.tables.get? t with
  | none => rfl
  | some i => simp only [insertEntries, tombEntries, hb, ht, baseRows_congr hf]

omit [DecidableEq V] in
/-- Entries added under a later timestamp are not read at an earlier one. -/
theorem at_addAll (d : DeltaStore V) {s ts : Int} (hs : s < ts) (bs : List (Batch V)) (t : String) :
    (d.addAll ts bs).batchesAtWithTs t s = d.batchesAtWithTs t s ∧
      (d.addAll ts bs).tombstonesAtWithTs t s = d.tombstonesAtWithTs t s := by
  have h : ¬ ts ≤ s := by omega
  rw [DeltaStore.batchesAtWithTs_eq, DeltaStore.tombstonesAtWithTs_eq,
    DeltaStore.batchesWithTs_addAll, DeltaStore.tombstonesWithTs_addAll, List.filter_append,
    List.filter_append, List.filter_map, List.filter_map]
  simp [DeltaStore.batchesAtWithTs_eq, DeltaStore.tombstonesAtWithTs_eq, Function.comp_def, h]

/-- **A commit does not move an open transaction's view.** -/
theorem seen_at_commit {e' : Engine V} {bs : List (Batch V)} {x : Transaction V}
    (hx : x.snapshotTs ≤ e.commitTs) (hc : Committed bs e e') :
    seen e' (some x) t = seen e (some x) t := by
  have hlt : x.snapshotTs < e.commitTs + 1 := by omega
  have h := at_addAll e.delta hlt bs t
  refine seen_at_congr hc.catalog hc.parquet ?_ ?_
  · rw [hc.delta, h.1]
  · rw [hc.delta, h.2]

/-! ## 4. One buffered write -/

section Buffered

variable {e' : Engine V} {i : TableInfo V} {x : Transaction V}

theorem seen_congr (hcat : e'.catalog = e.catalog) (hf : e'.disk.parquet = e.disk.parquet)
    (hd : e'.delta = e.delta) (y : Option (Transaction V)) (t : String) :
    seen e' y t = seen e y t := by
  unfold seen
  rw [hcat]
  cases e.catalog.tables.get? t with
  | none => rfl
  | some i => simp only [insertEntries, tombEntries, hd, baseRows_congr hf]

theorem seen_bufferAppend (h : DeltaOk e) (hx : x.snapshotTs < insInf)
    (hi : e.catalog.tables.get? t = some i) (f : Frame V) :
    seen e (some (x.bufferAppend t f)) t = seen e (some x) t ++
      (f.rows.filter fun r => decide (keyOf (keyCols i) r ∉
        keysOf (keyCols i) false (x.tombstoneBatchesWithFlag t))).map fun r => (insInf, r) := by
  have hown : ownRows (x.bufferAppend t f) t = ownRows x t ++ f.rows := by
    simp [ownRows]
  rw [seen_txn h (x.bufferAppend t f) hx hi, seen_txn h x hx hi]
  unfold overlay layer
  rw [hown, Transaction.tombstoneBatches_bufferAppend, Transaction.snapshotTs_bufferAppend,
    List.filter_append, List.map_append, List.append_assoc]
  congr!

omit [DecidableEq V] in
theorem keysOf_snoc (key : List String) (gs : List (Frame V × Bool)) (g : Frame V) :
    keysOf key false (gs ++ [(g, false)]) =
        keysOf key false gs ++ (g.rows.map (keyOf key)).filter Key.nonNull ∧
      keysOf key true (gs ++ [(g, false)]) = keysOf key true gs := by
  constructor <;> simp [keysOf, List.filter_append]

theorem seen_tombstoneAppend (h : DeltaOk e) (hx : x.snapshotTs < insInf)
    (hi : e.catalog.tables.get? t = some i) (g : Frame V) :
    seen e (some (x.tombstoneAppend t g false)) t = (seen e (some x) t).filter fun y =>
      decide (keyOf (keyCols i) y.2 ∉ (g.rows.map (keyOf (keyCols i))).filter Key.nonNull) := by
  have htomb : (x.tombstoneAppend t g false).tombstoneBatchesWithFlag t =
      x.tombstoneBatchesWithFlag t ++ [(g, false)] := by
    simp
  have hown : ownRows (x.tombstoneAppend t g false) t = ownRows x t := rfl
  obtain ⟨hdel, hupd⟩ := keysOf_snoc (keyCols i) (x.tombstoneBatchesWithFlag t) g
  rw [seen_txn h (x.tombstoneAppend t g false) hx hi, seen_txn h x hx hi]
  unfold overlay layer
  rw [hown, htomb, hdel, hupd, Transaction.snapshotTs_tombstoneAppend]
  generalize (g.rows.map (keyOf (keyCols i))).filter Key.nonNull = ks
  rw [List.filter_append, List.filter_filter, List.filter_map, List.filter_filter]
  congr 1
  · refine List.filter_congr fun y _ => ?_
    rw [Bool.eq_iff_iff]
    simp only [List.mem_append, not_or, decide_eq_true_eq, Bool.and_eq_true]
    tauto
  · congr 1
    refine List.filter_congr fun r _ => ?_
    rw [Bool.eq_iff_iff]
    simp only [List.mem_append, not_or, decide_eq_true_eq, Bool.and_eq_true, Function.comp_apply]
    tauto

end Buffered

/-! ## 5. Snapshot rows among committed rows -/

/-- The tags of committed rows lie between 0 and the counter. -/
theorem seen_bounds (h : DeltaOk e) (h0 : 0 ≤ e.commitTs) {y : Int × Row V}
    (hy : y ∈ seen e none t) : 0 ≤ y.1 ∧ y.1 ≤ e.commitTs := by
  unfold seen at hy
  cases hi : e.catalog.tables.get? t with
  | none => rw [hi] at hy; cases hy
  | some i =>
    rw [hi] at hy
    rcases List.mem_append.mp (List.mem_of_mem_filter hy) with hy | hy
    · obtain ⟨r, -, rfl⟩ := List.mem_map.mp hy
      exact ⟨le_refl _, h0⟩
    · obtain ⟨b, hb, hy⟩ := List.mem_flatMap.mp hy
      obtain ⟨r, -, rfl⟩ := List.mem_map.mp hy
      have := (h.ins t b hb).1
      exact ⟨by simp only; omega, this.2⟩

/-- A row that is committed and not younger than the snapshot is in the snapshot. -/
theorem seen_old_sublist (h : DeltaOk e) (s : Int) (hs : 0 ≤ s) (t : String) :
    List.Sublist ((seen e none t).filter fun y => decide (y.1 ≤ s))
      (seen e (some { snapshotTs := s }) t) := by
  unfold seen
  cases e.catalog.tables.get? t with
  | none => exact List.Sublist.refl _
  | some i =>
    simp only [insertEntries, tombEntries, DeltaStore.batchesAtWithTs_eq,
      DeltaStore.tombstonesAtWithTs_eq, Transaction.bufferBatches_new,
      Transaction.tombstoneBatches_new, List.map_nil, List.append_nil]
    have hcut : ((baseRows e i).map (fun r => ((0 : Int), r)) ++
        tagRows (e.delta.batchesWithTs t)).filter (fun y => decide (y.1 ≤ s)) =
        (baseRows e i).map (fun r => ((0 : Int), r)) ++
          tagRows ((e.delta.batchesWithTs t).filter fun b => decide (b.1 ≤ s)) := by
      rw [List.filter_append]
      congr 1
      · refine List.filter_eq_self.mpr fun y hy => ?_
        obtain ⟨r, -, rfl⟩ := List.mem_map.mp hy
        simpa using hs
      · generalize e.delta.batchesWithTs t = l
        induction l with
        | nil => rfl
        | cons b l ih =>
          rw [← List.singleton_append, tagRows_append, List.filter_append, ih, List.filter_append,
            tagRows_append]
          congr 1
          by_cases hb : b.1 ≤ s
          · simp [tagRows, hb, List.filter_map, Function.comp_def]
          · simp [tagRows, hb, List.filter_map, Function.comp_def]
    have hsub : ∀ fl k v, (k, v) ∈ tombPairs (keyCols i) fl
        ((e.delta.tombstonesWithTs t).filter fun b => decide (b.1 ≤ s)) →
        (k, v) ∈ tombPairs (keyCols i) fl (e.delta.tombstonesWithTs t) := by
      intro fl k v hk
      obtain ⟨b, hb, hk⟩ := List.mem_flatMap.mp hk
      obtain ⟨hb, hfl⟩ := List.mem_filter.mp hb
      exact List.mem_flatMap.mpr ⟨b, List.mem_filter.mpr ⟨List.mem_of_mem_filter hb, hfl⟩, hk⟩
    have hpos : ∀ y ∈ (baseRows e i).map (fun r => ((0 : Int), r)) ++
        tagRows (e.delta.batchesWithTs t), 0 ≤ y.1 := by
      intro y hy
      rcases List.mem_append.mp hy with hy | hy
      · obtain ⟨r, -, rfl⟩ := List.mem_map.mp hy
        exact le_refl _
      · obtain ⟨b, hb, hy⟩ := List.mem_flatMap.mp hy
        obtain ⟨r, -, rfl⟩ := List.mem_map.mp hy
        have := (h.ins t b hb).1
        simp only
        omega
    unfold seenOf
    rw [← hcut]
    exact collapse_filter_sublist hpos (fun e he => hsub false e.1 e.2 he)
      (fun e he => hsub true e.1 e.2 he) _

end Overlay

end RyuDB.Engine
