/-
# Restore

A snapshot is a bare timestamp, and a restore drops the delta above it and sets the counter back.  It
is exact as far as the delta goes: what a commit at or before the target wrote is still there, what a
later one wrote is gone.  It knows nothing of what lies under the delta.  Rows that a checkpoint has
folded into the files since the counter stood at the target stay, and so does every change of the
catalog.  Named snapshots older than a checkpoint are dropped; raw timestamps are not checked, and
nor is their sign.

The history is the run itself: the rows a restore has to bring back are those of the last state of
the run in which the counter stood at the target (`StoodLast`).

Every act before the restore moves the counter by at most one upwards, so between two values it passes
all those in between, and there is a last state in which it stood at the target (`Run.exists_last`).
From that state on nothing at or below the target was written or removed, except by a checkpoint,
which the theorem excludes; so the delta at or below the target is the one of that state.
-/
import RyuDB.Touch
import RyuDB.Restart

namespace RyuDB

variable {V : Type}

namespace Engine

/-! ## 1. What the rows of a table rest on -/

/-- A scan starts from the same frame, and tombstones are read under the same key. -/
def Footed (e e' : Engine V) : Prop := ∀ t, cachedBase e' t none = cachedBase e t none ∧
  lookBase e' t none = lookBase e t none ∧ primaryKeyOf e'.catalog t = primaryKeyOf e.catalog t

/-- Nothing that a table's rows are made of moved. -/
def Unmoved (e e' : Engine V) : Prop := Footed e e' ∧ DeltaStore.Same e.delta e'.delta

/-- On the same footing, and with the same batches and tombstones up to `ts`. -/
structure Upon (ts : Int) (e e' : Engine V) : Prop where
  footed : Footed e e'
  batches : ∀ t, e'.delta.batchesAtWithTs t ts = e.delta.batchesAtWithTs t ts
  tombstones : ∀ t, e'.delta.tombstonesAtWithTs t ts = e.delta.tombstonesAtWithTs t ts

section Footing

variable {e e' e'' : Engine V} {ts : Int}

theorem Footed.refl (e : Engine V) : Footed e e := fun _ => ⟨rfl, rfl, rfl⟩

theorem Footed.trans (h : Footed e e') (h' : Footed e' e'') : Footed e e'' := fun t =>
  ⟨(h' t).1.trans (h t).1, (h' t).2.1.trans (h t).2.1, (h' t).2.2.trans (h t).2.2⟩

theorem Footed.of_same (hcat : e'.catalog = e.catalog) (hfiles : e'.disk.parquet = e.disk.parquet)
    (hbase : ∀ t, cachedBase e' t none = cachedBase e t none) : Footed e e' := fun t =>
  ⟨hbase t, by rw [lookBase, lookBase, hcat, hfiles], by rw [hcat]⟩

theorem Upon.refl (ts : Int) (e : Engine V) : Upon ts e e :=
  ⟨Footed.refl e, fun _ => rfl, fun _ => rfl⟩

theorem Upon.trans (h : Upon ts e e') (h' : Upon ts e' e'') : Upon ts e e'' :=
  ⟨h.footed.trans h'.footed, fun t => (h'.batches t).trans (h.batches t),
    fun t => (h'.tombstones t).trans (h.tombstones t)⟩

theorem Unmoved.upon (h : Unmoved e e') : Upon ts e e' where
  footed := h.1
  batches t := by rw [DeltaStore.batchesAtWithTs_eq, DeltaStore.batchesAtWithTs_eq, (h.2 t).1]
  tombstones t := by
    rw [DeltaStore.tombstonesAtWithTs_eq, DeltaStore.tombstonesAtWithTs_eq, (h.2 t).2]

/-- Only batches above `ts` came to the delta. -/
theorem Upon.addAll (hfoot : Footed e e') {k : Int} (hk : ts < k) {bs : List (Batch V)}
    (hd : e'.delta = e.delta.addAll k bs) : Upon ts e e' := by
  have hdrop : ∀ {α : Type} (l : List α),
      (l.map fun a => (k, a)).filter (fun b => decide (b.1 ≤ ts)) = [] := by
    intro α l
    refine List.filter_eq_nil_iff.mpr fun b hb => ?_
    obtain ⟨a, -, rfl⟩ := List.mem_map.mp hb
    simpa using hk
  refine ⟨hfoot, fun t => ?_, fun t => ?_⟩
  · rw [DeltaStore.batchesAtWithTs_eq, hd, DeltaStore.batchesWithTs_addAll, List.filter_append,
      hdrop, List.append_nil, DeltaStore.batchesAtWithTs_eq]
  · rw [DeltaStore.tombstonesAtWithTs_eq, hd, DeltaStore.tombstonesWithTs_addAll,
      List.filter_append, hdrop, List.append_nil, DeltaStore.tombstonesAtWithTs_eq]

/-- Only batches above `ts` left the delta. -/
theorem Upon.rewind (hfoot : Footed e e') {k : Int} (hk : ts ≤ k)
    (hd : e'.delta = e.delta.rewind k) : Upon ts e e' := by
  have hboth : ∀ {α : Type} (l : List (Int × α)), (l.filter fun b => decide (b.1 ≤ k)).filter
      (fun b => decide (b.1 ≤ ts)) = l.filter fun b => decide (b.1 ≤ ts) := by
    intro α l
    rw [List.filter_filter]
    refine List.filter_congr fun b _ => ?_
    by_cases hb : b.1 ≤ ts
    · have hbk : b.1 ≤ k := hb.trans hk
      simp [hb, hbk]
    · simp [hb]
  refine ⟨hfoot, fun t => ?_, fun t => ?_⟩
  · rw [DeltaStore.batchesAtWithTs_eq, hd, DeltaStore.batchesWithTs_rewind,
      DeltaStore.batchesAtWithTs_eq, hboth, DeltaStore.batchesAtWithTs_eq]
  · rw [DeltaStore.tombstonesAtWithTs_eq, hd, DeltaStore.tombstonesWithTs_rewind,
      DeltaStore.tombstonesAtWithTs_eq, hboth, DeltaStore.tombstonesAtWithTs_eq]

variable [DecidableEq V]

/-- The rows of a table are made of its base, its key, its batches and its tombstones. -/
theorem Unmoved.visible (h : Unmoved e e') (t : String) : visible e' t = visible e t := by
  obtain ⟨hb, hl, hp⟩ := h.1 t
  obtain ⟨hbatches, htombs⟩ := h.2 t
  have hmerge : ∀ base ins tomb, mergePure e'.catalog t base ins tomb =
      mergePure e.catalog t base ins tomb := by
    intro base ins tomb
    unfold mergePure
    rw [hp]
  have hunflushed : e'.delta.hasUnflushed t = e.delta.hasUnflushed t := by
    rw [Bool.eq_iff_iff, DeltaStore.hasUnflushed_iff, DeltaStore.hasUnflushed_iff, hbatches, htombs]
  have htomb : e'.delta.hasTombstones t = e.delta.hasTombstones t := by
    rw [Bool.eq_iff_iff, DeltaStore.hasTombstones_iff, DeltaStore.hasTombstones_iff, htombs]
  have hglance : glance e' none t none = glance e none t none := by
    unfold glance
    simp only [columnSet, hb, hl, hmerge, hasPending, hasTomb, insertEntries, tombEntries,
      hunflushed, htomb, hbatches, htombs]
  rw [visible_glance, visible_glance, hglance]

/-- **Rewinding brings back the rows** of a state with nothing above `ts`. -/
theorem Upon.visible_rewind (h : Upon ts e e') (hcov : CounterCovers e) (hts : e.commitTs = ts)
    {e₁ : Engine V} (hfoot : Footed e' e₁) (hd : e₁.delta = e'.delta.rewind ts) (t : String) :
    Engine.visible e₁ t = Engine.visible e t := by
  refine Unmoved.visible ⟨h.footed.trans hfoot, fun u => ?_⟩ t
  rw [hd, DeltaStore.batchesWithTs_rewind, DeltaStore.tombstonesWithTs_rewind, h.batches,
    h.tombstones]
  have hall : ∀ {α : Type} (l : List (Int × α)), (∀ b ∈ l, b.1 ≤ e.commitTs) →
      l = l.filter fun b => decide (b.1 ≤ ts) := by
    intro α l hl
    refine (List.filter_eq_self.mpr fun b hb => ?_).symm
    have := hl b hb
    rw [hts] at this
    simpa using this
  exact ⟨hall _ (hcov u).1, hall _ (hcov u).2⟩

end Footing

/-! ## 2. The counter -/

section Counter

variable {H : Host V} {s s₁ s' : Session V} {e e' : Engine V}

/-- The counter stays, and the delta loses at most some of what it held. -/
structure Lessens (s s' : Session V) : Prop where
  counter : s'.eng.commitTs = s.eng.commitTs
  batches : ∀ t, s'.eng.delta.batchesWithTs t ⊆ s.eng.delta.batchesWithTs t
  tombstones : ∀ t, s'.eng.delta.tombstonesWithTs t ⊆ s.eng.delta.tombstonesWithTs t

theorem Lessens.of_same (hd : s'.eng.delta = s.eng.delta)
    (hts : s'.eng.commitTs = s.eng.commitTs) : Lessens s s' :=
  ⟨hts, fun t => by rw [hd]; exact List.Subset.refl _, fun t => by rw [hd]; exact List.Subset.refl _⟩

theorem Lessens.refl (s : Session V) : Lessens s s := Lessens.of_same rfl rfl

theorem Lessens.trans (a b c : Session V) (h : Lessens a b) (h' : Lessens b c) : Lessens a c :=
  ⟨h'.counter.trans h.counter, fun t => List.Subset.trans (h'.batches t) (h.batches t),
    fun t => List.Subset.trans (h'.tombstones t) (h.tombstones t)⟩

theorem Lessens.covers (h : Lessens s s') (hcov : CounterCovers s.eng) : CounterCovers s'.eng := by
  intro t
  rw [h.counter]
  exact ⟨fun b hb => (hcov t).1 b (h.batches t hb), fun b hb => (hcov t).2 b (h.tombstones t hb)⟩

theorem Lessens.counts (h : Lessens s s') (hcov : CounterCovers s.eng) :
    CounterCovers s'.eng ∧ s'.eng.commitTs ≤ s.eng.commitTs + 1 :=
  ⟨h.covers hcov, by rw [h.counter]; exact Int.le_add_one (le_refl _)⟩

theorem write_lessens (w : Write V) : Proc.Keeps Lessens (write w) := by
  intro s
  unfold write
  cases hw : w.apply s.eng with
  | error x => exact Lessens.refl s
  | ok e =>
    cases w with
    | writeTable p data => cases hw; exact Lessens.of_same rfl rfl
    | replace src dst =>
      rw [Write.apply] at hw
      split at hw
      · cases hw
      · cases hw
        exact Lessens.of_same rfl rfl
    | register t p =>
      rw [Write.apply] at hw
      split at hw
      · cases hw
      · cases hw
        exact Lessens.of_same rfl rfl
    | clear t =>
      cases hw
      refine ⟨rfl, fun u => ?_, fun u => ?_⟩
      · rw [DeltaStore.batchesWithTs_clear]
        split
        · exact List.nil_subset _
        · exact List.Subset.refl _
      · rw [DeltaStore.tombstonesWithTs_clear]
        split
        · exact List.nil_subset _
        · exact List.Subset.refl _
    | remove p => cases hw; exact Lessens.of_same rfl rfl
    | dropCache t => cases hw; exact Lessens.of_same rfl rfl

theorem walTruncate_lessens (ts : Int) : Proc.Keeps Lessens (walTruncate ts : Op V Unit) := by
  intro s
  unfold walTruncate
  split
  · split
    · exact Lessens.refl s
    · split
      · exact Lessens.refl s
      · exact Lessens.of_same rfl rfl
  · exact Lessens.refl s

theorem changeCatalog_lessens
    (f : Catalog V → Disk V → Except DbError (Catalog V × Disk V)) :
    Proc.Keeps Lessens (changeCatalog f) := by
  intro s
  unfold changeCatalog
  split <;> exact Lessens.of_same rfl rfl

theorem runUpload_lessens (t : String) (p : Path) (payload : Option (Parquet V)) :
    Proc.Keeps Lessens (runUpload t p payload) := by
  cases payload with
  | none => exact Proc.Keeps.raise Lessens.refl _
  | some data =>
    refine Proc.Keeps.bind Lessens.trans (fun s => Lessens.of_same rfl rfl) fun _ => ?_
    refine Proc.Keeps.bind Lessens.trans (Proc.Keeps.onError Lessens.trans
      (changeCatalog_lessens _) fun s => Lessens.of_same rfl rfl) fun _ => ?_
    exact Proc.Keeps.pure Lessens.refl _

/-- What the replayed store holds was read from the log. -/
theorem mem_replayDelta (l : List (Int × Batch V)) (t : String) :
    (∀ b ∈ (replayDelta l).batchesWithTs t, ∃ e ∈ l, e.1 = b.1) ∧
      ∀ b ∈ (replayDelta l).tombstonesWithTs t, ∃ e ∈ l, e.1 = b.1 := by
  induction l using List.reverseRecOn with
  | nil => exact ⟨fun b hb => (by cases hb), fun b hb => (by cases hb)⟩
  | append_singleton l a ih =>
    have hsnoc : replayDelta (l ++ [a]) = (replayDelta l).addAll a.1 [a.2] := by
      rw [replayDelta, List.foldl_append]
      rfl
    rw [hsnoc, DeltaStore.batchesWithTs_addAll, DeltaStore.tombstonesWithTs_addAll]
    refine ⟨fun b hb => ?_, fun b hb => ?_⟩
    · rcases List.mem_append.mp hb with hb | hb
      · obtain ⟨e, he, hts⟩ := ih.1 b hb
        exact ⟨e, List.mem_append_left _ he, hts⟩
      · obtain ⟨f, -, rfl⟩ := List.mem_map.mp hb
        exact ⟨a, by simp, rfl⟩
    · rcases List.mem_append.mp hb with hb | hb
      · obtain ⟨e, he, hts⟩ := ih.2 b hb
        exact ⟨e, List.mem_append_left _ he, hts⟩
      · obtain ⟨f, -, rfl⟩ := List.mem_map.mp hb
        exact ⟨a, by simp, rfl⟩

theorem start_covers (dir : Option String) (d : Disk V) : CounterCovers (start H dir d) := by
  intro t
  unfold start
  simp only
  split
  · exact ⟨fun b hb => (by cases hb), fun b hb => (by cases hb)⟩
  · rename_i bs _
    obtain ⟨hb, ht⟩ := mem_replayDelta (Wal.replay H bs).1 t
    refine ⟨fun b hmem => ?_, fun b hmem => ?_⟩
    · obtain ⟨e, he, hts⟩ := hb b hmem
      rw [← hts]
      exact (le_replayCommitTs _).2 e he
    · obtain ⟨e, he, hts⟩ := ht b hmem
      rw [← hts]
      exact (le_replayCommitTs _).2 e he

theorem covers_rewind (ts : Int) (hd : e'.delta = e.delta.rewind ts)
    (hts : e'.commitTs = ts) : CounterCovers e' := by
  intro t
  rw [hd, hts, DeltaStore.batchesWithTs_rewind, DeltaStore.tombstonesWithTs_rewind,
    DeltaStore.batchesAtWithTs_eq, DeltaStore.tombstonesAtWithTs_eq]
  exact ⟨fun b hb => by simpa using (List.mem_filter.mp hb).2,
    fun b hb => by simpa using (List.mem_filter.mp hb).2⟩

/-- `_write_commit` raises the counter by one and adds to the delta at most batches of that
timestamp. -/
theorem writeCommit_state (bs : List (Batch V)) (s : Session V) :
    (writeCommit H bs s).2.eng.commitTs = s.eng.commitTs + 1 ∧
      Footed s.eng (writeCommit H bs s).2.eng ∧
      ∃ bs', (writeCommit H bs s).2.eng.delta = s.eng.delta.addAll (s.eng.commitTs + 1) bs' := by
  unfold writeCommit
  simp only
  split
  · exact ⟨rfl, Footed.of_same rfl rfl fun _ => rfl, [], rfl⟩
  · exact ⟨rfl, Footed.of_same rfl rfl fun _ => rfl, bs, rfl⟩

theorem covers_addAll (h : CounterCovers e) {bs : List (Batch V)}
    (hd : e'.delta = e.delta.addAll (e.commitTs + 1) bs) (hts : e'.commitTs = e.commitTs + 1) :
    CounterCovers e' := by
  intro t
  rw [hd, hts, DeltaStore.batchesWithTs_addAll, DeltaStore.tombstonesWithTs_addAll]
  refine ⟨fun b hb => ?_, fun b hb => ?_⟩
  · rcases List.mem_append.mp hb with hb | hb
    · have := (h t).1 b hb
      omega
    · obtain ⟨f, -, rfl⟩ := List.mem_map.mp hb
      exact le_refl _
  · rcases List.mem_append.mp hb with hb | hb
    · have := (h t).2 b hb
      omega
    · obtain ⟨f, -, rfl⟩ := List.mem_map.mp hb
      exact le_refl _

theorem Quiet.footed (hq : Quiet s s₁) (ha : s.faults.writesBack = false) : Footed s.eng s₁.eng :=
  Footed.of_same hq.catalog (by rw [hq.disk]) fun t => hq.bases ha t none

theorem Quiet.covers (hq : Quiet s s₁) (h : CounterCovers s.eng) : CounterCovers s₁.eng :=
  (Lessens.of_same hq.delta hq.commitTs).covers h

/-- A restore that passed its checks. -/
theorem restoreTo_moves (hx : s.txn = none) {target : Int} (hle : target ≤ s.eng.commitTs) :
    (restoreTo target s).2.eng.commitTs = target ∧
      Footed s.eng (restoreTo target s).2.eng ∧
      (restoreTo target s).2.eng.delta = s.eng.delta.rewind target := by
  obtain ⟨wal, snapshots, hs', -⟩ := restoreTo_state hx hle
  rw [hs']
  exact ⟨rfl, Footed.of_same rfl rfl fun _ => rfl, rfl⟩

/-- **A statement raises the counter by at most one, and the counter covers the delta.** -/
theorem Touch.counter (h : Touch H s s') (hcov : CounterCovers s.eng) :
    CounterCovers s'.eng ∧ s'.eng.commitTs ≤ s.eng.commitTs + 1 := by
  cases h with
  | slot hq x => exact ⟨hq.covers hcov, by rw [hq.commitTs]; omega⟩
  | @write s₁ hq bs x =>
    obtain ⟨hts, -, bs', hd⟩ := writeCommit_state (H := H) bs s₁
    exact ⟨covers_addAll (hq.covers hcov) hd hts, le_of_eq (by rw [hts, hq.commitTs])⟩
  | snapshot hq name => exact ⟨hq.covers hcov, by rw [hq.commitTs]; omega⟩
  | restore hq hx hle =>
    obtain ⟨hts, -, hd⟩ := restoreTo_moves hx hle
    refine ⟨covers_rewind _ hd hts, ?_⟩
    rw [hts, ← hq.commitTs]
    omega

/-- **A statement after which the counter is above `ts` leaves what lies at or below `ts`.** -/
theorem Touch.upon (h : Touch H s s') (ha : s.faults.writesBack = false) {ts : Int}
    (hle : ts ≤ s.eng.commitTs) (hlt : ts < s'.eng.commitTs) : Upon ts s.eng s'.eng := by
  have hquiet : ∀ {s₁ : Session V}, Quiet s s₁ → Upon ts s.eng s₁.eng := by
    intro s₁ hq
    refine Unmoved.upon ⟨hq.footed ha, ?_⟩
    rw [hq.delta]
    exact DeltaStore.Same.refl _
  cases h with
  | slot hq x =>
    have h := hquiet hq
    exact h
  | @write s₁ hq bs x =>
    obtain ⟨hts, hfoot, bs', hd⟩ := writeCommit_state (H := H) bs s₁
    refine (hquiet hq).trans (Upon.addAll hfoot ?_ hd)
    rw [hq.commitTs]
    omega
  | snapshot hq name =>
    have h := hquiet hq
    exact ⟨h.footed, h.batches, h.tombstones⟩
  | restore hq hx hle' =>
    obtain ⟨hts, hfoot, hd⟩ := restoreTo_moves hx hle'
    rw [hts] at hlt
    exact (hquiet hq).trans (Upon.rewind hfoot (le_of_lt hlt) hd)

variable [DecidableEq V]

theorem keeps_foldOf (t : String) : Proc.Keeps Quiet (foldOf t : Op V (Fold V)) := by
  refine Proc.Keeps.bind Quiet.trans (keeps_catalogGet t) fun i => ?_
  refine Proc.Keeps.bind Quiet.trans (keeps_scan t none) fun merged => ?_
  exact Proc.Keeps.bind Quiet.trans (Proc.Keeps.lift Quiet.refl _) fun data =>
    Proc.Keeps.pure Quiet.refl _

/-- The frame of the loop body of a checkpoint is the frame of reading and of its writes. -/
theorem keeps_foldTable {R : Session V → Session V → Prop} (hr : ∀ s, R s s)
    (ht : ∀ a b c, R a b → R b c → R a c) (hq : ∀ s s', Quiet s s' → R s s')
    (hw : ∀ w : Write V, Proc.Keeps R (write w)) (t : String) :
    Proc.Keeps R (foldTable t : Op V (Option (String × Nat))) := by
  refine Proc.Keeps.bind ht (fun s => hq _ _ (checkCancel_reads s).quiet) fun _ => ?_
  refine Proc.Keeps.bind ht (Proc.Keeps.get hr) fun s => ?_
  split
  · refine Proc.Keeps.bind ht (fun s => hq _ _ (keeps_foldOf t s)) fun f => ?_
    refine Proc.Keeps.bind ht (Proc.Keeps.each hr ht hw _) fun _ => ?_
    exact Proc.Keeps.bind ht (fun s => hq _ _ (keeps_catalogGet t s)) fun i => Proc.Keeps.pure hr _
  · exact Proc.Keeps.pure hr _

theorem foldTable_lessens (t : String) :
    Proc.Keeps Lessens (foldTable t : Op V (Option (String × Nat))) :=
  keeps_foldTable Lessens.refl Lessens.trans (fun _ _ h => Lessens.of_same h.delta h.commitTs)
    write_lessens t

/-- A checkpoint, finished or not, leaves the counter and only takes from the delta. -/
theorem checkpoint_lessens : Proc.Keeps Lessens (checkpoint H) := by
  refine Proc.Keeps.bind Lessens.trans (Proc.Keeps.get Lessens.refl) fun s => ?_
  split
  · exact Proc.Keeps.raise Lessens.refl _
  · split
    · exact Proc.Keeps.raise Lessens.refl _
    · simp only
      split
      · exact Proc.Keeps.pure Lessens.refl _
      · refine Proc.Keeps.bind Lessens.trans
          (Proc.Keeps.collect Lessens.refl Lessens.trans foldTable_lessens _) fun written => ?_
        refine Proc.Keeps.bind Lessens.trans (walTruncate_lessens 0) fun _ => ?_
        refine Proc.Keeps.bind Lessens.trans (fun s => Lessens.of_same rfl rfl) fun _ => ?_
        exact Proc.Keeps.pure Lessens.refl _

/-- **An admin action** raises the counter by at most one, and the counter covers the delta. -/
theorem runAdmin_counter (hasOpenTxn : Bool) (a : Admin V) (hx : s.txn = none)
    (hcov : CounterCovers s.eng) : CounterCovers (runAdmin H hasOpenTxn a s).2.eng ∧
      (runAdmin H hasOpenTxn a s).2.eng.commitTs ≤ s.eng.commitTs + 1 := by
  have hcases := runAdmin_cases (H := H) hasOpenTxn hx a
  generalize (runAdmin H hasOpenTxn a s).2.eng = e at hcases
  have hsame : ∀ e' : Engine V, e'.delta = s.eng.delta → e'.commitTs = s.eng.commitTs →
      CounterCovers e' ∧ e'.commitTs ≤ s.eng.commitTs + 1 := fun e' hd hts =>
    (@Lessens.of_same V s { s with eng := e' } hd hts).counts hcov
  have hrestore : ∀ ts, ts ≤ s.eng.commitTs → CounterCovers (restoreTo ts s).2.eng ∧
      (restoreTo ts s).2.eng.commitTs ≤ s.eng.commitTs + 1 := by
    intro ts hle
    obtain ⟨hts, -, hd⟩ := restoreTo_moves hx hle
    exact ⟨covers_rewind _ hd hts, by rw [hts]; exact Int.le_add_one hle⟩
  cases hcases with
  | refused => exact hsame _ rfl rfl
  | register hi => exact hsame _ rfl rfl
  | drop => exact hsame _ rfl rfl
  | rename hi hnew => exact hsame _ rfl rfl
  | alter hi => exact hsame _ rfl rfl
  | checkpoint ho => exact (checkpoint_lessens (H := H) s).counts hcov
  | snapshot name => exact hsame _ rfl rfl
  | restore ho hn hle => exact hrestore _ hle
  | restoreTo ho hle => exact hrestore _ hle
  | clearCache which =>
    refine hsame _ ?_ ?_ <;> split <;> rfl

end Counter

/-! ## 3. Commits after a restore -/

section Accepts

variable {H : Host V} {e e' : Engine V} {bs : List (Batch V)}

/-- `_write_commit` takes the batches when the disk does not fail. -/
def Accepts (H : Host V) (e : Engine V) (bs : List (Batch V)) : Prop :=
  (writeCommit H bs ⟨e, none, {}⟩).1 = .ok (e.commitTs + 1)

/-- A record that fits at a timestamp fits at every smaller one that is not negative. -/
theorem buildRecord_lower {k k' : Int} {r : Bytes} (h : buildRecord H k bs = .ok r) (h0 : 0 ≤ k')
    (hle : k' ≤ k) : ∃ r', buildRecord H k' bs = .ok r' := by
  obtain ⟨p, hp, hlen, -⟩ := buildRecord_ok H h
  unfold encodePayload at hp
  cases ht : packCommitTs k with
  | error y => rw [ht] at hp; cases hp
  | ok t =>
    rw [ht] at hp
    have hk : 0 ≤ k ∧ k < 2 ^ 64 := by
      by_contra hk
      rw [packCommitTs, if_neg hk] at ht
      cases ht
    have ht' : packCommitTs k' = .ok (Bytes.packLE 8 k'.toNat) := by
      rw [packCommitTs, if_pos ⟨h0, by omega⟩]
    cases hn : packU32 bs.length with
    | error y => simp only [hn, bind, Except.bind] at hp; cases hp
    | ok n =>
      cases hb : encodeBatches H bs with
      | error y => simp only [hn, hb, bind, Except.bind] at hp; cases hp
      | ok b =>
        simp only [hn, hb, bind, Except.bind] at hp
        have hpl : p.length = 8 + (n ++ b).length := by
          rw [packCommitTs, if_pos hk] at ht
          cases ht
          cases hp
          rw [List.length_append, Bytes.length_packLE]
        have hp' : encodePayload H k' bs = .ok (Bytes.packLE 8 k'.toNat ++ (n ++ b)) := by
          unfold encodePayload
          simp only [ht', hn, hb, bind, Except.bind]
          rfl
        unfold buildRecord
        rw [hp']
        simp only [bind, Except.bind]
        rw [packU32, if_pos (by rw [List.length_append, Bytes.length_packLE]; omega)]
        exact ⟨_, rfl⟩

theorem Accepts.lower (h : Accepts H e bs) (h0 : 0 ≤ e'.commitTs)
    (hle : e'.commitTs ≤ e.commitTs) (hen : e'.walEnabled = e.walEnabled) : Accepts H e' bs := by
  unfold Accepts writeCommit at h ⊢
  simp only [Wal.writeCommit] at h ⊢
  rw [hen]
  cases hbs : bs.isEmpty with
  | true => rfl
  | false =>
    rw [hbs] at h
    cases hwal : e.walEnabled with
    | false => rfl
    | true =>
      rw [hwal] at h
      cases hr : buildRecord H (e.commitTs + 1) bs with
      | error y =>
        rw [hr] at h
        cases h
      | ok r =>
        have h0 : 0 ≤ e'.commitTs + 1 := by omega
        obtain ⟨r', hr'⟩ := buildRecord_lower hr h0 (by omega)
        rw [hr']
        rfl

end Accepts

end Engine

namespace World

open Engine

/-! ## 4. Runs -/

/-- A restart does not raise the counter: the log holds no later timestamp. -/
def Steady (H : Host V) (w : World V) : Act V → Prop
  | .conn .restart => (Engine.start H w.eng.catalog.dataDir w.eng.disk).commitTs ≤ w.eng.commitTs
  | _ => True

section Runs

variable [DecidableEq V]

/-- A checkpoint, an upload, a change of the catalog or of the caches, or a restart leaves the rows
of every table on the same base, key and delta, and no aggregate of a statement writes into a cached
frame; other acts may do as they like. -/
def Grounded (H : Host V) (w : World V) : Act V → Prop
  | .conn (.sql _ _ faults) => faults.writesBack = false
  | .conn (.disconnect _) => True
  | .admin (.snapshot _) _ => True
  | .admin (.restore _) _ => True
  | .admin (.restoreTo _) _ => True
  | a => Unmoved w.eng (w.act H a).eng

/-- The run `acts` is `l₁` and then `l₂`, and the end of `l₁` is the last state of it in which the
counter stood at `ts`. -/
def StoodLast (H : Host V) (w : World V) (acts : List (Act V)) (ts : Int)
    (l₁ l₂ : List (Act V)) : Prop :=
  acts = l₁ ++ l₂ ∧ (Run.run (World.act H) w l₁).eng.commitTs = ts ∧
    ∀ l₃, l₃ ≠ [] → l₃ <+: l₂ → (Run.run (World.act H) w (l₁ ++ l₃)).eng.commitTs ≠ ts

variable {H : Host V} {w : World V}

/-- **One act raises the counter by at most one.** -/
theorem act_counter (w : World V) (a : Act V) (hcov : CounterCovers w.eng) (ha : Steady H w a) :
    CounterCovers (w.act H a).eng ∧ (w.act H a).eng.commitTs ≤ w.eng.commitTs + 1 := by
  cases a with
  | conn a =>
    cases a with
    | sql c st faults => exact (sql_touch (s := w.session c faults) st).counter hcov
    | disconnect c => exact ⟨hcov, Int.le_add_one (le_refl _)⟩
    | restart => exact ⟨start_covers _ _, Int.le_add_one ha⟩
  | upload t p payload => exact (runUpload_lessens t p payload ⟨w.eng, none, {}⟩).counts hcov
  | admin a faults => exact runAdmin_counter (s := ⟨w.eng, none, faults⟩) w.hasOpenTxn a rfl hcov

/-- **An act after which the counter is above `ts` leaves what lies at or below `ts`.** -/
theorem act_upon (w : World V) (a : Act V) (ha : Grounded H w a) {ts : Int}
    (hle : ts ≤ w.eng.commitTs) (hlt : ts < (w.act H a).eng.commitTs) :
    Upon ts w.eng (w.act H a).eng := by
  cases a with
  | conn a =>
    cases a with
    | sql c st faults => exact (sql_touch (s := w.session c faults) st).upon ha hle hlt
    | disconnect c => exact Upon.refl ts _
    | restart => exact Unmoved.upon ha
  | upload t p payload => exact Unmoved.upon ha
  | admin a faults =>
    have hcases := runAdmin_cases (H := H) (s := ⟨w.eng, none, faults⟩) w.hasOpenTxn rfl a
    change ts < (runAdmin H w.hasOpenTxn a ⟨w.eng, none, faults⟩).2.eng.commitTs at hlt
    cases a with
    | snapshot name => exact ⟨Footed.of_same rfl rfl fun _ => rfl, fun _ => rfl, fun _ => rfl⟩
    | restore name =>
      change Upon ts w.eng (runAdmin H w.hasOpenTxn (.restore name) ⟨w.eng, none, faults⟩).2.eng
      generalize (runAdmin H w.hasOpenTxn (.restore name) ⟨w.eng, none, faults⟩).2.eng = e
        at hcases hlt
      cases hcases with
      | refused => exact Upon.refl ts _
      | restore ho hn hle' =>
        obtain ⟨hts, hfoot, hd⟩ := restoreTo_moves (s := ⟨w.eng, none, faults⟩) rfl hle'
        rw [hts] at hlt
        exact Upon.rewind hfoot (le_of_lt hlt) hd
    | restoreTo ts' =>
      change Upon ts w.eng (runAdmin H w.hasOpenTxn (.restoreTo ts') ⟨w.eng, none, faults⟩).2.eng
      generalize (runAdmin H w.hasOpenTxn (.restoreTo ts') ⟨w.eng, none, faults⟩).2.eng = e
        at hcases hlt
      cases hcases with
      | refused => exact Upon.refl ts _
      | restoreTo ho hle' =>
        obtain ⟨hts, hfoot, hd⟩ := restoreTo_moves (s := ⟨w.eng, none, faults⟩) rfl hle'
        rw [hts] at hlt
        exact Upon.rewind hfoot (le_of_lt hlt) hd
    | register t path => exact Unmoved.upon ha
    | drop t => exact Unmoved.upon ha
    | rename old new => exact Unmoved.upon ha
    | alter t a => exact Unmoved.upon ha
    | checkpoint => exact Unmoved.upon ha
    | clearCache which => exact Unmoved.upon ha

theorem upon_run {ts : Int} {l : List (Act V)} (hg : Run.Along (World.act H) (Grounded H) w l)
    (hts : ts ≤ w.eng.commitTs)
    (habove : ∀ l₃, l₃ ≠ [] → l₃ <+: l → ts < (Run.run (World.act H) w l₃).eng.commitTs) :
    Upon ts w.eng (Run.run (World.act H) w l).eng := by
  induction l generalizing w with
  | nil => exact Upon.refl ts _
  | cons a l ih =>
    have hlt : ts < (w.act H a).eng.commitTs := habove [a] (by simp) (by simp)
    refine (act_upon w a hg.1 hts hlt).trans (ih hg.2 (le_of_lt hlt) fun l₃ _ hpre => ?_)
    exact habove (a :: l₃) (by simp) (List.prefix_cons_inj a |>.mpr hpre)

theorem covers_along {l : List (Act V)} (hcov : CounterCovers w.eng)
    (hl : Run.Along (World.act H) (Steady H) w l) :
    CounterCovers (Run.run (World.act H) w l).eng ∧ Run.Along (World.act H)
      (fun w a => (w.act H a).eng.commitTs ≤ w.eng.commitTs + 1) w l := by
  induction l generalizing w with
  | nil => exact ⟨hcov, trivial⟩
  | cons a l ih =>
    obtain ⟨hcov', hle⟩ := act_counter w a hcov hl.1
    obtain ⟨hend, hrest⟩ := ih hcov' hl.2
    exact ⟨hend, hle, hrest⟩

end Runs

end World

/-! ## 5. Restores -/

/-- `restore(name)` or `restore_to(ts)`. -/
inductive Rewind where
  | named (name : String)
  | raw (ts : Int)

namespace Rewind

/-- The method. -/
def code : Rewind → Op V Unit
  | .named name => Engine.restore name
  | .raw ts => Engine.restoreTo ts

/-- The timestamp it goes to. -/
def target (e : Engine V) : Rewind → Option Int
  | .named name => e.snapshots.get? name
  | .raw ts => some ts

/-- What the method does: it raises and leaves the session, or goes to its target, except that a
failing truncation of the log leaves the work half done. -/
theorem code_cases (r : Rewind) {s : Session V} (hf : s.faults.truncate = false) :
    (∃ y, r.code s = (.error y, s)) ∨ ∃ ts, r.target s.eng = some ts ∧ s.txn = none ∧
      ts ≤ s.eng.commitTs ∧ r.code s = (.ok (), (Engine.restoreTo ts s).2) := by
  have hto : ∀ ts, (∃ y, Engine.restoreTo ts s = (.error y, s)) ∨ s.txn = none ∧
      ts ≤ s.eng.commitTs ∧ Engine.restoreTo ts s = (.ok (), (Engine.restoreTo ts s).2) := by
    intro ts
    unfold Engine.restoreTo
    rw [Proc.get_bind]
    cases hx : s.txn with
    | some x => exact Or.inl ⟨_, rfl⟩
    | none =>
      simp only
      by_cases hle : ts ≤ s.eng.commitTs
      · right
        rw [if_neg (by omega), Proc.modify_bind]
        refine ⟨trivial, hle, ?_⟩
        rcases hw : Engine.walTruncate ts { s with eng := { s.eng with
          delta := s.eng.delta.rewind ts, commitTs := ts } } with ⟨v, s₁⟩
        cases v with
        | ok u =>
          rw [Proc.bind_of_ok hw]
          rfl
        | error y =>
          unfold Engine.walTruncate at hw
          simp only [hf, Bool.false_eq_true, if_false] at hw
          split at hw
          · split at hw <;> cases hw
          · cases hw
      · left
        rw [if_pos (by omega)]
        exact ⟨_, rfl⟩
  cases r with
  | raw ts =>
    rcases hto ts with h | ⟨hx, hle, h⟩
    · exact Or.inl h
    · exact Or.inr ⟨ts, rfl, hx, hle, h⟩
  | named name =>
    unfold code
    simp only
    rw [Engine.restore, Proc.get_bind]
    cases hn : s.eng.snapshots.get? name with
    | none => exact Or.inl ⟨_, rfl⟩
    | some ts =>
      rcases hto ts with h | ⟨hx, hle, h⟩
      · exact Or.inl h
      · exact Or.inr ⟨ts, hn, hx, hle, h⟩

end Rewind

section Whole

variable [DecidableEq V] {H : Host V}

/-- **A restore is exact or refused.**  In every world reached from a start without a log, by acts among which
no restart raises the counter, a restore whose target is not negative, since which every act left the rows on
the same base, key and delta (statements whose aggregates leave the cached frames alone, snapshots and
restores apart), and whose log truncation works: either it raises and leaves the session as it was, or it
returns, the counter stands at its target, every table shows the rows of the last state of the run in which
the counter stood there, and whatever `_write_commit` would have taken before it takes again. -/
theorem restore_exact (dir : Option String) (d : Disk V) (hd : d.wal = none)
    {acts : List (Act V)}
    (hsteady : Run.Along (World.act H) (World.Steady H) (World.init H dir d) acts)
    {w : World V} (hw : w = Run.run (World.act H) (World.init H dir d) acts)
    (r : Rewind) (x : Option (Transaction V)) (q : Faults) (hq : q.truncate = false)
    (htarget : ∀ ts, r.target w.eng = some ts → 0 ≤ ts ∧
      ∀ l₁ l₂, World.StoodLast H (World.init H dir d) acts ts l₁ l₂ →
        Run.Along (World.act H) (World.Grounded H)
          (Run.run (World.act H) (World.init H dir d) l₁) l₂) :
    (∃ y, r.code ⟨w.eng, x, q⟩ = (.error y, ⟨w.eng, x, q⟩)) ∨
      ∃ ts s', r.target w.eng = some ts ∧ r.code ⟨w.eng, x, q⟩ = (.ok (), s') ∧
        s'.eng.commitTs = ts ∧
        (∃ l₁ l₂, World.StoodLast H (World.init H dir d) acts ts l₁ l₂ ∧
          ∀ t, Engine.visible s'.eng t =
            Engine.visible (Run.run (World.act H) (World.init H dir d) l₁).eng t) ∧
        ∀ bs, Engine.Accepts H w.eng bs → Engine.Accepts H s'.eng bs := by
  rcases r.code_cases (s := ⟨w.eng, x, q⟩) hq with h | ⟨ts, hts, hx, hle, h⟩
  · exact Or.inl h
  · right
    obtain ⟨h0, hground⟩ := htarget ts hts
    have hstart : (World.init H dir d).eng.commitTs = 0 := by
      have hnone : (if dir.isSome then d.wal else none) = none := by
        rw [hd, ite_self]
      simp only [World.init, Engine.start, hnone]
    have hcov : CounterCovers (World.init H dir d).eng := Engine.start_covers dir d
    have hle' : ts ≤ (Run.run (World.act H) (World.init H dir d) acts).eng.commitTs := by
      rw [← hw]
      exact hle
    obtain ⟨l₁, l₂, hacts, hl₁, habove⟩ := Run.exists_last (f := fun w : World V => w.eng.commitTs)
      (by rw [hstart]; exact h0) hle' (World.covers_along hcov hsteady).2
    have hlast : World.StoodLast H (World.init H dir d) acts ts l₁ l₂ :=
      ⟨hacts, hl₁, fun l₃ hne hpre => ne_of_gt (habove l₃ hne hpre)⟩
    have hcov₁ : CounterCovers (Run.run (World.act H) (World.init H dir d) l₁).eng := by
      rw [hacts] at hsteady
      exact (World.covers_along hcov (Run.Along.append.mp hsteady).1).1
    have hupon : Engine.Upon ts (Run.run (World.act H) (World.init H dir d) l₁).eng w.eng := by
      rw [hw, hacts, Run.run_append]
      refine World.upon_run (hground l₁ l₂ hlast) (le_of_eq hl₁.symm) fun l₃ hne hpre => ?_
      rw [← Run.run_append]
      exact habove l₃ hne hpre
    obtain ⟨hcount, hfoot, hdelta⟩ := Engine.restoreTo_moves (s := ⟨w.eng, x, q⟩) hx hle
    refine ⟨ts, _, hts, h, hcount, ⟨l₁, l₂, hlast, fun t => ?_⟩, fun bs hbs => ?_⟩
    · exact hupon.visible_rewind hcov₁ hl₁ hfoot hdelta t
    · refine hbs.lower (by rw [hcount]; exact h0) (by rw [hcount]; exact hle) ?_
      obtain ⟨wal, snapshots, hs', -⟩ := Engine.restoreTo_state (s := ⟨w.eng, x, q⟩) hx hle
      rw [hs']
      rfl

end Whole

/-! ## 6. Below a checkpoint -/

/-- The world after some acts on a data directory with one table. -/
@[irreducible] def onOneTable (acts : List (Act Nat)) : World Nat :=
  Run.run (World.act natHost) (World.init natHost (some "d") oneTable) acts

theorem onOneTable_eq (acts : List (Act Nat)) : onOneTable acts =
    Run.run (World.act natHost) (World.init natHost (some "d") oneTable) acts := by
  unfold onOneTable
  rfl

/-- A row, and the checkpoint that folds it. -/
def foldedRow : List (Act Nat) := [.conn (.sql 0 (insertKey "t" 1) {}), .admin .checkpoint {}]

/-- The restore to 0 returns, and the table shows the row, which it did not when the counter stood
at 0. -/
theorem folded_row_stays :
    ((Rewind.raw 0).code ⟨(onOneTable foldedRow).eng, none, {}⟩).1.toBool = true ∧
      ∀ l₁ l₂, World.StoodLast natHost (World.init natHost (some "d") oneTable) foldedRow 0 l₁ l₂ →
        Engine.visible ((Rewind.raw 0).code ⟨(onOneTable foldedRow).eng, none, {}⟩).2.eng "t" ≠
          Engine.visible (onOneTable l₁).eng "t" := by
  have hok : ((Rewind.raw 0).code ⟨(onOneTable foldedRow).eng, none, {}⟩).1.toBool = true := by
    decide +kernel
  have hafter : World.column (Engine.visible
      ((Rewind.raw 0).code ⟨(onOneTable foldedRow).eng, none, {}⟩).2.eng "t") = .ok [some 1] := by
    decide +kernel
  have hzero : World.column (Engine.visible (onOneTable []).eng "t") = .ok [] := by decide +kernel
  have hone : (onOneTable [.conn (.sql 0 (insertKey "t" 1) {})]).eng.commitTs = 1 := by
    decide +kernel
  have htwo : (onOneTable foldedRow).eng.commitTs = 1 := by decide +kernel
  refine ⟨hok, fun l₁ l₂ hlast heq => ?_⟩
  obtain ⟨hsplit, hts, -⟩ := hlast
  rw [← onOneTable_eq] at hts
  -- the counter is 1 after each of the two acts
  rcases l₁ with _ | ⟨a, _ | ⟨b, l⟩⟩
  · rw [heq, hzero] at hafter
    cases hafter
  · obtain ⟨ha, -⟩ := List.cons.inj hsplit
    rw [← ha, hone] at hts
    cases hts
  · obtain ⟨ha, hrest⟩ := List.cons.inj hsplit
    obtain ⟨hb, hnil⟩ := List.cons.inj hrest
    obtain ⟨hl, -⟩ := List.append_eq_nil_iff.mp hnil.symm
    have hall : a :: b :: l = foldedRow := by
      rw [← ha, ← hb, hl]
      rfl
    rw [hall, htwo] at hts
    cases hts

/-- A row, a snapshot, and another row. -/
def snapshotBetween : List (Act Nat) :=
  [.conn (.sql 0 (insertKey "t" 1) {}), .conn (.sql 0 (.createSnapshot "a") {}),
    .conn (.sql 0 (insertKey "t" 2) {})]

set_option maxRecDepth 10000 in
/-- The restore goes back to the first row. -/
theorem restore_exact_snapshot :
    ∃ s', (Rewind.named "a").code ⟨(onOneTable snapshotBetween).eng, none, {}⟩ = (.ok (), s') ∧
      s'.eng.commitTs = 1 ∧ ∃ l₁ l₂,
        World.StoodLast natHost (World.init natHost (some "d") oneTable) snapshotBetween 1 l₁ l₂ ∧
          ∀ t, Engine.visible s'.eng t = Engine.visible (Run.run (World.act natHost)
            (World.init natHost (some "d") oneTable) l₁).eng t := by
  have hstmt : ∀ a ∈ snapshotBetween, ∃ c st, a = .conn (.sql c st {}) := by
    intro a ha
    simp only [snapshotBetween, List.mem_cons, List.not_mem_nil, or_false] at ha
    rcases ha with rfl | rfl | rfl <;> exact ⟨_, _, rfl⟩
  have hsteady : Run.Along (World.act natHost) (World.Steady natHost)
      (World.init natHost (some "d") oneTable) snapshotBetween := by
    refine Run.Along.mono (fun w a h => ?_) (Run.Along.of_forall hstmt)
    obtain ⟨c, st, rfl⟩ := h
    trivial
  have htarget : (Rewind.named "a").target (onOneTable snapshotBetween).eng = some 1 := by
    with_unfolding_all decide
  have hok : ((Rewind.named "a").code
      ⟨(onOneTable snapshotBetween).eng, none, {}⟩).1.toBool = true := by with_unfolding_all decide
  have hcond : ∀ ts, (Rewind.named "a").target (onOneTable snapshotBetween).eng = some ts →
      0 ≤ ts ∧ ∀ l₁ l₂, World.StoodLast natHost (World.init natHost (some "d") oneTable)
        snapshotBetween ts l₁ l₂ → Run.Along (World.act natHost) (World.Grounded natHost)
          (Run.run (World.act natHost) (World.init natHost (some "d") oneTable) l₁) l₂ := by
    intro ts hts
    rw [htarget] at hts
    cases hts
    refine ⟨by decide, fun l₁ l₂ hlast => ?_⟩
    have hrest : ∀ a ∈ l₂, ∃ c st, a = .conn (.sql c st {}) := fun a ha =>
      hstmt a (by rw [hlast.1]; exact List.mem_append_right _ ha)
    refine Run.Along.mono (fun w a h => ?_) (Run.Along.of_forall hrest)
    obtain ⟨c, st, rfl⟩ := h
    rfl
  rcases restore_exact (some "d") oneTable rfl hsteady (onOneTable_eq snapshotBetween)
    (.named "a") none {} rfl hcond with ⟨y, hy⟩ | ⟨ts, s', hts, hrun, hcount, hrows, -⟩
  · rw [hy] at hok
    cases hok
  · rw [htarget] at hts
    cases hts
    exact ⟨s', hrun, hcount, hrows⟩

end RyuDB
