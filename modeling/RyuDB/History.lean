/-
# Reading a history of commits

The delta store of an engine is the list of its commits, sent batch by batch to the two channels
(`storeOf`).  A read at a snapshot collapses whatever the channels hold into two comparisons per
row.  `mergeColumns_history` says that nothing is lost or resurrected on the way: for a table with
a declared key, `_merge_delta` at snapshot `s` returns the rows one gets by applying the commits
up to `s` one after another (`Versioned.applyCommit`), and outside a transaction the same for the
whole history.

That is so where `_merge_delta` is `mergeDelta`.  A column `_ins_ts` of the table is overwritten with
the timestamps and dropped (`stamped_column_lost`), and a value that does not fit the dtype of the base
is another one after the merge (`wide_value_wraps`).

The argument has two halves.  The channels, cut at `s`, are the flattened history cut at `s`
(`seenOf_history`), and collapsing a flattened history is replaying it
(`Versioned.collapse_history`).
-/
import RyuDB.MergeColumns

namespace RyuDB

open Versioned

variable {V : Type}

/-! ## 1. The store of a history -/

/-- The delta store after a history of commits. -/
def storeOf (hist : List (LogEntry V)) : DeltaStore V :=
  hist.foldl (fun d c => d.addAll c.1 c.2) DeltaStore.empty

theorem storeOf_snoc (hist : List (LogEntry V)) (c : LogEntry V) :
    storeOf (hist ++ [c]) = (storeOf hist).addAll c.1 c.2 := by
  simp [storeOf]

theorem batchesWithTs_storeOf (hist : List (LogEntry V)) (t : String) :
    (storeOf hist).batchesWithTs t =
      hist.flatMap fun c => (insertsOf t c.2).map fun f => (c.1, f) := by
  induction hist using List.reverseRecOn with
  | nil => rfl
  | append_singleton hist c ih =>
    rw [storeOf_snoc, DeltaStore.batchesWithTs_addAll, ih, List.flatMap_append,
      List.flatMap_singleton]

theorem tombstonesWithTs_storeOf (hist : List (LogEntry V)) (t : String) :
    (storeOf hist).tombstonesWithTs t =
      hist.flatMap fun c => (tombsOf t c.2).map fun g => (c.1, g.1, g.2) := by
  induction hist using List.reverseRecOn with
  | nil => rfl
  | append_singleton hist c ih =>
    rw [storeOf_snoc, DeltaStore.tombstonesWithTs_addAll, ih, List.flatMap_append,
      List.flatMap_singleton]

/-- Cutting the entries of a history at a timestamp is cutting the history. -/
theorem filter_flatMap_ts {α : Type} (f : LogEntry V → List (Int × α))
    (hf : ∀ c, ∀ e ∈ f c, e.1 = c.1) (s : Int) : ∀ hist : List (LogEntry V),
    (hist.flatMap f).filter (fun e => decide (e.1 ≤ s)) =
      (hist.filter fun c => decide (c.1 ≤ s)).flatMap f
  | [] => rfl
  | c :: hist => by
    have ih := filter_flatMap_ts f hf s hist
    rw [List.flatMap_cons, List.filter_append, ih]
    by_cases hc : c.1 ≤ s
    · rw [List.filter_cons_of_pos (by simpa using hc), List.flatMap_cons,
        List.filter_eq_self.mpr fun e he => by rw [hf c e he]; simpa using hc]
    · rw [List.filter_cons_of_neg (by simpa using hc),
        List.filter_eq_nil_iff.mpr fun e he => by rw [hf c e he]; simpa using hc, List.nil_append]

/-! ## 2. One table of a history -/

/-- What a commit does to the table `t` with key columns `p`. -/
def commitOn (t : String) (p : List String) (c : LogEntry V) : Commit (Key V) (Row V) where
  ts := c.1
  ins := (insertsOf t c.2).flatMap Frame.rows
  del := ((tombsOf t c.2).filter fun g => decide (g.2 = false)).flatMap fun g =>
    g.1.rows.map (keyOf p)
  upd := ((tombsOf t c.2).filter fun g => decide (g.2 = true)).flatMap fun g =>
    g.1.rows.map (keyOf p)

/-- A history as the engine writes it on the table `t` with entry `i` and declared key `p`: insert
batches have the columns of the schema, tombstones those of the key and no NULL, and timestamps
start at 1 and increase. -/
structure HistoryOk (t : String) (i : TableInfo V) (p : List String)
    (hist : List (LogEntry V)) : Prop where
  declared : i.constraints.primaryKey = some p
  nonempty : p ≠ []
  columns : ∀ col ∈ p, col ∈ i.columns
  ins : ∀ c ∈ hist, ∀ f ∈ insertsOf t c.2, f.columns = i.columns
  tomb : ∀ c ∈ hist, ∀ g ∈ tombsOf t c.2, g.1.columns = p ∧
    ∀ r ∈ g.1.rows, Key.nonNull (keyOf p r) = true
  pos : ∀ c ∈ hist, 1 ≤ c.1
  increasing : (hist.map Prod.fst).Pairwise (· < ·)

namespace HistoryOk

variable {t : String} {i : TableInfo V} {p : List String} {hist : List (LogEntry V)}

/-- The commits up to a timestamp are again such a history. -/
theorem cut (h : HistoryOk t i p hist) (q : LogEntry V → Bool) :
    HistoryOk t i p (hist.filter q) where
  declared := h.declared
  nonempty := h.nonempty
  columns := h.columns
  ins c hc := h.ins c (List.mem_of_mem_filter hc)
  tomb c hc := h.tomb c (List.mem_of_mem_filter hc)
  pos c hc := h.pos c (List.mem_of_mem_filter hc)
  increasing := h.increasing.sublist (List.filter_sublist.map _)

theorem increasing_commits (h : HistoryOk t i p hist) :
    Increasing (hist.map (commitOn t p)) := by
  refine ⟨?_, ?_⟩
  · rw [List.map_map]
    exact h.increasing
  · intro c hc
    obtain ⟨d, hd, rfl⟩ := List.mem_map.mp hc
    exact h.pos d hd

/-- The batches and tombstones of the history are well shaped. -/
theorem entriesOk (h : HistoryOk t i p hist) {c : Catalog V} (hi : c.tables.get? t = some i) :
    Engine.EntriesOk c t (hist.flatMap fun c => (insertsOf t c.2).map fun f => (c.1, f))
      (hist.flatMap fun c => (tombsOf t c.2).map fun g => (c.1, g.1, g.2)) := by
  constructor
  · intro e he
    obtain ⟨d, hd, he⟩ := List.mem_flatMap.mp he
    obtain ⟨f, hf, rfl⟩ := List.mem_map.mp he
    have := h.pos d hd
    exact ⟨by simp only; omega, i, hi, h.ins d hd f hf⟩
  · intro e he
    obtain ⟨d, hd, he⟩ := List.mem_flatMap.mp he
    obtain ⟨g, hg, rfl⟩ := List.mem_map.mp he
    exact ⟨i, p, hi, h.declared, h.nonempty, h.columns, (h.tomb d hd g hg).1⟩

end HistoryOk

/-! ## 3. The two channels are the flattened history -/

theorem tagRows_history (t : String) (p : List String) (base : List (Row V)) :
    ∀ hist : List (LogEntry V), (base.map fun r => ((0 : Int), r)) ++
      Engine.tagRows (hist.flatMap fun c => (insertsOf t c.2).map fun f => (c.1, f)) =
        tagged base (hist.map (commitOn t p)) := by
  intro hist
  rw [tagged]
  congr 1
  induction hist with
  | nil => rfl
  | cons c hist ih =>
    rw [List.flatMap_cons, Engine.tagRows_append, ih, List.map_cons, List.flatMap_cons]
    congr 1
    simp [Engine.tagRows, commitOn, List.flatMap_map, List.map_flatMap]

/-- The tombstones of one kind, when no key holds NULL. -/
theorem tombPairs_history (t : String) (p : List String) (fl : Bool) :
    ∀ hist : List (LogEntry V), (∀ c ∈ hist, ∀ g ∈ tombsOf t c.2,
        ∀ r ∈ g.1.rows, Key.nonNull (keyOf p r) = true) →
      Engine.tombPairs p fl (hist.flatMap fun c => (tombsOf t c.2).map fun g => (c.1, g.1, g.2)) =
        hist.flatMap fun c => (((tombsOf t c.2).filter fun g => decide (g.2 = fl)).flatMap fun g =>
          g.1.rows.map (keyOf p)).map fun k => (k, c.1)
  | [], _ => rfl
  | c :: hist, h => by
    have ih := tombPairs_history t p fl hist fun d hd => h d (List.mem_cons_of_mem _ hd)
    rw [List.flatMap_cons, Engine.tombPairs_append, ih, List.flatMap_cons]
    congr 1
    rw [Engine.tombPairs, List.filter_map, List.flatMap_map, List.map_flatMap]
    refine List.flatMap_congr fun g hg => ?_
    have hall : (g.1.rows.map (keyOf p)).filter Key.nonNull = g.1.rows.map (keyOf p) := by
      refine List.filter_eq_self.mpr fun k hk => ?_
      obtain ⟨r, hr, rfl⟩ := List.mem_map.mp hk
      exact h c List.mem_cons_self g (List.mem_of_mem_filter hg) r hr
    simp only [hall]

section Rows

variable [DecidableEq V] {t : String} {i : TableInfo V} {p : List String}
  {hist : List (LogEntry V)}

/-- The rows seen through the channels of a history are the rows of the replayed history. -/
theorem seenOf_history (h : HistoryOk t i p hist) (base : List (Row V)) :
    (Engine.seenOf (Engine.keyCols i) base
        (hist.flatMap fun c => (insertsOf t c.2).map fun f => (c.1, f))
        (hist.flatMap fun c => (tombsOf t c.2).map fun g => (c.1, g.1, g.2))).map Prod.snd =
      (hist.map (commitOn t p)).foldl (applyCommit (keyOf p)) base := by
  have hkey : Engine.keyCols i = p := by rw [Engine.keyCols, h.declared, Option.getD_some]
  have hnn : ∀ c ∈ hist, ∀ g ∈ tombsOf t c.2, ∀ r ∈ g.1.rows, Key.nonNull (keyOf p r) = true :=
    fun c hc g hg => (h.tomb c hc g hg).2
  rw [Engine.seenOf, hkey, tagRows_history t p, tombPairs_history t p false hist hnn,
    tombPairs_history t p true hist hnn, ← collapse_history base _ h.increasing_commits]
  congr 2
  · simp only [dels, List.flatMap_map, commitOn]
  · simp only [upds, List.flatMap_map, commitOn]

/-- The merge of a history's channels with a base returns the replayed history. -/
theorem mergePure_history (h : HistoryOk t i p hist) {c : Catalog V}
    (hi : c.tables.get? t = some i) {b : Frame V} (hb : b.columns = i.columns) :
    ∃ f, Engine.mergePure c t b (hist.flatMap fun c => (insertsOf t c.2).map fun f => (c.1, f))
        (hist.flatMap fun c => (tombsOf t c.2).map fun g => (c.1, g.1, g.2)) = .ok f ∧
      f.rows = (hist.map (commitOn t p)).foldl (applyCommit (keyOf p)) b.rows := by
  obtain ⟨f, hf, -, hr⟩ := Engine.mergePure_seen hi hb (h.entriesOk hi)
  exact ⟨f, hf, by rw [hr, seenOf_history h]⟩

/-! ## 4. `_merge_delta` -/

/-- At a snapshot `s` the merge returns the base with the commits up to `s` applied one after another in
timestamp order, and outside a transaction the base with all of them applied. -/
theorem mergeDelta_history (h : HistoryOk t i p hist) (e : Engine V) (hd : e.delta = storeOf hist)
    (hi : e.catalog.tables.get? t = some i) (b : Frame V) (hb : b.columns = i.columns)
    (faults : Faults) (hf : faults.cancelAfter = none) :
    (∀ s : Int, ∃ f,
      (Engine.mergeDelta b t ⟨e, some { snapshotTs := s }, faults⟩).1 = .ok f ∧
        f.rows.Perm (((hist.filter fun c => decide (c.1 ≤ s)).map (commitOn t p)).foldl
          (applyCommit (keyOf p)) b.rows)) ∧
    ∃ f, (Engine.mergeDelta b t ⟨e, none, faults⟩).1 = .ok f ∧
      f.rows.Perm ((hist.map (commitOn t p)).foldl (applyCommit (keyOf p)) b.rows) := by
  constructor
  · intro s
    obtain ⟨f, hm, hr⟩ := mergePure_history (h.cut fun c => decide (c.1 ≤ s)) hi hb
    refine ⟨f, ?_, by rw [hr]⟩
    have hread := (Engine.mergeDelta_reads b t ⟨e, some { snapshotTs := s }, faults⟩).value.calm hf
    rw [hread, ← hm]
    congr 1
    · simp only [Engine.insertEntries, DeltaStore.batchesAtWithTs_eq, hd, batchesWithTs_storeOf,
        Transaction.bufferBatches_new, List.map_nil, List.append_nil]
      refine filter_flatMap_ts _ (fun c e he => ?_) s hist
      obtain ⟨f, -, rfl⟩ := List.mem_map.mp he
      rfl
    · simp only [Engine.tombEntries, DeltaStore.tombstonesAtWithTs_eq, hd,
        tombstonesWithTs_storeOf, Transaction.tombstoneBatches_new, List.map_nil, List.append_nil]
      refine filter_flatMap_ts _ (fun c e he => ?_) s hist
      obtain ⟨g, -, rfl⟩ := List.mem_map.mp he
      rfl
  · obtain ⟨f, hm, hr⟩ := mergePure_history h hi hb
    refine ⟨f, ?_, by rw [hr]⟩
    have hread := (Engine.mergeDelta_reads b t ⟨e, none, faults⟩).value.calm hf
    rw [hread, ← hm]
    congr 1
    · simp only [Engine.insertEntries, hd, batchesWithTs_storeOf]
    · simp only [Engine.tombEntries, hd, tombstonesWithTs_storeOf]

omit [DecidableEq V] in
/-- What the merge of a history finds pending is in the history. -/
theorem mem_history_entries {e : Engine V} (hd : e.delta = storeOf hist) (x : Option (Transaction V))
    (hx : ∀ y, x = some y → y.bufferBatches t = [] ∧ y.tombstoneBatchesWithFlag t = [])
    (faults : Faults) :
    (∀ b ∈ Engine.insertEntries ⟨e, x, faults⟩ t, ∃ c ∈ hist, b.2 ∈ insertsOf t c.2) ∧
      ∀ b ∈ Engine.tombEntries ⟨e, x, faults⟩ t, ∃ c ∈ hist, ∃ fl, (b.2.1, fl) ∈ tombsOf t c.2 := by
  have hins : ∀ b ∈ e.delta.batchesWithTs t, ∃ c ∈ hist, b.2 ∈ insertsOf t c.2 := by
    intro b hb
    rw [hd, batchesWithTs_storeOf] at hb
    obtain ⟨c, hc, hb⟩ := List.mem_flatMap.mp hb
    obtain ⟨f, hf, rfl⟩ := List.mem_map.mp hb
    exact ⟨c, hc, hf⟩
  have htomb : ∀ b ∈ e.delta.tombstonesWithTs t, ∃ c ∈ hist, ∃ fl, (b.2.1, fl) ∈ tombsOf t c.2 := by
    intro b hb
    rw [hd, tombstonesWithTs_storeOf] at hb
    obtain ⟨c, hc, hb⟩ := List.mem_flatMap.mp hb
    obtain ⟨g, hg, rfl⟩ := List.mem_map.mp hb
    exact ⟨c, hc, g.2, hg⟩
  cases x with
  | none => exact ⟨hins, htomb⟩
  | some y =>
    obtain ⟨hb, hg⟩ := hx y rfl
    simp only [Engine.insertEntries, Engine.tombEntries, hb, hg, List.map_nil, List.append_nil,
      DeltaStore.batchesAtWithTs_eq, DeltaStore.tombstonesAtWithTs_eq]
    exact ⟨fun b hm => hins b (List.mem_of_mem_filter hm),
      fun b hm => htomb b (List.mem_of_mem_filter hm)⟩

/-- **`_merge_delta` replays the history**, where no column has a name that it uses itself and the cast to
the dtypes of the base keeps what the commits hold.  At a snapshot `s` it returns the base with the
commits up to `s` applied one after another in timestamp order, and outside a transaction the base
with all of them applied. -/
theorem mergeColumns_history (M : Merger V) (h : HistoryOk t i p hist) (hfree : i.Free)
    (hins : ∀ c ∈ hist, ∀ f ∈ insertsOf t c.2, M.Keeps t f)
    (htomb : ∀ c ∈ hist, ∀ g ∈ tombsOf t c.2, M.Keeps t g.1)
    (e : Engine V) (hd : e.delta = storeOf hist) (hi : e.catalog.tables.get? t = some i)
    (b : Frame V) (hb : b.columns = i.columns) (faults : Faults) (hf : faults.cancelAfter = none) :
    (∀ s : Int, ∃ f,
      (Engine.mergeColumns M b t ⟨e, some { snapshotTs := s }, faults⟩).1 = .ok f ∧
        f.rows.Perm (((hist.filter fun c => decide (c.1 ≤ s)).map (commitOn t p)).foldl
          (applyCommit (keyOf p)) b.rows)) ∧
    ∃ f, (Engine.mergeColumns M b t ⟨e, none, faults⟩).1 = .ok f ∧
      f.rows.Perm ((hist.map (commitOn t p)).foldl (applyCommit (keyOf p)) b.rows) := by
  have hsame : ∀ x : Option (Transaction V),
      (∀ y, x = some y → y.bufferBatches t = [] ∧ y.tombstoneBatchesWithFlag t = []) →
        Engine.mergeColumns M b t ⟨e, x, faults⟩ = Engine.mergeDelta b t ⟨e, x, faults⟩ := by
    intro x hx
    obtain ⟨hinsx, htombx⟩ := mem_history_entries hd x hx faults
    refine Engine.mergeColumns_of_keeps (fun a ha => ?_) (fun a ha => ?_) (fun q hq c hc => ?_)
      (fun c hc => hfree.1 c (by rw [← hb]; exact hc))
    · obtain ⟨c, hc, hm⟩ := hinsx a ha
      exact hins c hc _ hm
    · obtain ⟨c, hc, fl, hm⟩ := htombx a ha
      exact htomb c hc (a.2.1, fl) hm
    · unfold Engine.primaryKeyOf at hq
      rw [Engine.get_eq_ok.mpr hi] at hq
      refine hfree.2 c ?_
      rw [Engine.keyCols, Except.ok.inj hq]
      exact hc
  obtain ⟨hat, hall⟩ := mergeDelta_history h e hd hi b hb faults hf
  refine ⟨fun s => ?_, ?_⟩
  · rw [hsame _ fun y hy => by cases hy; exact ⟨rfl, rfl⟩]
    exact hat s
  · rw [hsame none fun y hy => by cases hy]
    exact hall

end Rows

/-- A key inserted, deleted, inserted again and another one updated away. -/
def reinsertHistory : List (LogEntry Nat) :=
  [(1, [⟨"t", .insert, keyFrame [1, 2]⟩]), (2, [⟨"t", .tombstone, keyFrame [1]⟩]),
    (4, [⟨"t", .insert, keyFrame [1]⟩, ⟨"t", .tombstoneUpdate, keyFrame [2]⟩])]

/-- An engine whose delta is that history, over one table with the file `d/t.parquet`. -/
def reinsertEngine : Engine Nat where
  catalog := ⟨none, (∅ : Dict _ _).set "t" (keyTable "t" ⟨"d", "t.parquet"⟩)⟩
  scanCache := ∅
  delta := storeOf reinsertHistory
  commitTs := 4
  snapshots := ∅
  disk := ⟨∅, none, none⟩

theorem mergeColumns_history_reinsert :
    (∀ s : Int, ∃ f, (Engine.mergeColumns natMerger (keyFrame [3]) "t"
        ⟨reinsertEngine, some { snapshotTs := s }, {}⟩).1 = .ok f ∧
      f.rows.Perm (((reinsertHistory.filter fun c => decide (c.1 ≤ s)).map
        (commitOn "t" ["k"])).foldl (applyCommit (keyOf ["k"])) (keyFrame [3]).rows)) ∧
    ∃ f, (Engine.mergeColumns natMerger (keyFrame [3]) "t" ⟨reinsertEngine, none, {}⟩).1 = .ok f ∧
      f.rows.Perm ((reinsertHistory.map (commitOn "t" ["k"])).foldl
        (applyCommit (keyOf ["k"])) (keyFrame [3]).rows) :=
  mergeColumns_history natMerger (i := keyTable "t" ⟨"d", "t.parquet"⟩)
    ⟨rfl, by decide, by decide, by decide, by decide, by decide, by decide⟩ (by decide)
    (fun _ _ f _ => natMerger_keeps "t" f) (fun _ _ g _ => natMerger_keeps "t" g.1)
    reinsertEngine rfl rfl (keyFrame [3]) rfl {} rfl

/-! ## 5. A column of the merge's own -/

/-- Rows of the columns `k` and `_ins_ts`. -/
def stampedFrame (rows : List (Nat × Nat)) : Frame Nat :=
  Frame.ofCells (["k", "_ins_ts"], rows.map fun r => [some r.1, some r.2])

/-- One commit into a table with a column `_ins_ts`. -/
def stampedHistory : List (LogEntry Nat) := [(1, [⟨"t", .insert, stampedFrame [(2, 8)]⟩])]

/-- An engine whose delta is that history. -/
def stampedEngine : Engine Nat where
  catalog := ⟨none, (∅ : Dict _ _).set "t" { keyTable "t" ⟨"d", "t.parquet"⟩ with
    schema := [⟨"k", .integer, true⟩, ⟨"_ins_ts", .integer, true⟩] }⟩
  scanCache := ∅
  delta := storeOf stampedHistory
  commitTs := 1
  snapshots := ∅
  disk := ⟨∅, none, none⟩

/-- **The column `_ins_ts` is lost.**  `_merge_delta` writes its timestamps over it and drops it. -/
theorem stamped_column_lost :
    ¬ ∃ f, (Engine.mergeColumns natMerger (stampedFrame [(1, 7)]) "t"
        ⟨stampedEngine, none, {}⟩).1 = .ok f ∧
      f.rows.Perm ((stampedHistory.map (commitOn "t" ["k"])).foldl (applyCommit (keyOf ["k"]))
        (stampedFrame [(1, 7)]).rows) := by
  rintro ⟨f, hf, hperm⟩
  have hcells : (Engine.mergeColumns natMerger (stampedFrame [(1, 7)]) "t"
      ⟨stampedEngine, none, {}⟩).1.map (fun f => f.rows.map (· "_ins_ts")) = .ok [none, none] := by
    with_unfolding_all decide
  rw [hf] at hcells
  have hlost : f.rows.map (· "_ins_ts") = [none, none] := Except.ok.inj hcells
  have hrows := hperm.map (· "_ins_ts")
  rw [hlost] at hrows
  revert hrows
  with_unfolding_all decide

/-- `astype` to INT32, which wraps. -/
def int32Merger : Merger Nat where
  astype _ _ v := .ok (some (v % 2 ^ 32))
  stored _ _ v := .ok (some v)
  mixed _ base _ _ := .ok base

/-- An engine whose delta holds the key 4294967297. -/
def wideEngine : Engine Nat := { reinsertEngine with
  delta := storeOf [(1, [⟨"t", .insert, keyFrame [4294967297]⟩])] }

/-- **A value that does not fit the base is another one.** -/
theorem wide_value_wraps :
    (Engine.mergeColumns int32Merger (keyFrame []) "t" ⟨wideEngine, none, {}⟩).1.map
      (fun f => f.rows.map (· "k")) = .ok [some 1] := by
  with_unfolding_all decide

end RyuDB
