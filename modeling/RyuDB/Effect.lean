/-
# What a statement does to the session

Every statement is a reading part followed by at most one change of the state.  Section 1 gives
the reading parts their pure counterparts.  `Effect` then lists the changes: nothing but the cache
moved, an autocommit write set was handed to `_write_commit`, a write set was buffered in the open
transaction, or one of BEGIN, COMMIT, ROLLBACK, CREATE SNAPSHOT, RESTORE took effect.
`sql_effect` says that there is no other case, also for a statement that raised; the arguments
about runs go by cases on it and never open a statement again.

A write set carries what later arguments need to know of it (`Flush.Ok`): its rows have the
columns of the table and no declared key in common with the rows the statement saw, and its
tombstones are the keys of rows the statement saw.

The list is an over-approximation in one respect: an effect says what was handed to `_write_commit`
and not whether the log took it, so a failed append is an effect like a successful one, with another
state behind it.  In every other respect it is exact, and it asks two things of the session: the
cached frames are those of the files, and no aggregate of the statement writes into one (`Pristine`).
-/
import RyuDB.Dml
import RyuDB.View

namespace RyuDB.Engine

open Versioned

variable {V : Type}

/-! ## 1. Reading parts

A reading part scans, evaluates and checks.  Each has a counterpart that is a function of the engine
and the transaction alone, without the cache and without the cancel, and the lemma about it says that
the reading part returns what its counterpart says, or is cancelled, and leaves the session quiet. -/

section Reads

variable [DecidableEq V] {s : Session V}

/-- A scan in a state reached quietly reads what it would have read before. -/
theorem Reads.scan {s₁ : Session V} (hc : Pristine s) (hq : Quiet s s₁) (t : String)
    (columns : Option (List String)) :
    Reads (Engine.scan t columns) s₁ (look s.eng s.txn t columns) := by
  have h := scan_reads t columns s₁ (hq.coherent hc)
  rwa [hq.txn, look_congr hq.catalog hq.delta (by rw [hq.disk])] at h

omit [DecidableEq V] in
theorem Reads.catalogGet {s₁ : Session V} (hq : Quiet s s₁) (t : String) :
    Reads (Engine.catalogGet t) s₁ (s.eng.catalog.get t) := by
  rw [← hq.catalog]
  exact catalogGet_reads t s₁

/-- The frames a query scans. -/
def lookAll (e : Engine V) (x : Option (Transaction V)) :
    List (String × Option (List String)) → Except DbError (List (Frame V))
  | [] => .ok []
  | r :: l => do
    let f ← look e x r.1 r.2
    let fs ← lookAll e x l
    return f :: fs

theorem collect_scan_reads (hc : Pristine s) : ∀ (l : List (String × Option (List String)))
    (s₁ : Session V), Quiet s s₁ →
      Reads (Proc.collect (fun r => Engine.scan r.1 r.2) l) s₁ (lookAll s.eng s.txn l)
  | [], _, _ => Reads.pure []
  | r :: l, _, hq => Reads.bind (Reads.scan hc hq r.1 r.2) fun _ s₂ _ hq₂ =>
      Reads.bind (collect_scan_reads hc l s₂ (Quiet.trans _ _ _ hq hq₂)) fun _ _ _ _ =>
        Reads.pure _

/-- `_exec` without cache and cancel. -/
def execPure (e : Engine V) (x : Option (Transaction V)) (q : Query V) :
    Except DbError (Frame V) := lookAll e x q.reads >>= q.eval

omit [DecidableEq V] in
/-- A query whose aggregates write into no cached frame moves nothing. -/
theorem writeBack_reads {s₁ : Session V} (hw : s₁.faults.writesBack = false) (q : Query V) :
    Reads (writeBack q) s₁ (.ok ()) := by
  have hsame : writeBack q s₁ = (.ok (), s₁) := by
    unfold writeBack
    rw [Proc.modify_apply, hw, if_neg Bool.false_ne_true]
  exact ⟨by rw [hsame]; exact Quiet.refl s₁, by rw [hsame]; exact Or.inl rfl⟩

theorem exec_reads (hc : Pristine s) {s₁ : Session V} (hq : Quiet s s₁) (q : Query V) :
    Reads (exec q) s₁ (execPure s.eng s.txn q) := by
  refine Reads.bind (v := .ok ()) (g := fun _ => execPure s.eng s.txn q) (checkCancel_reads s₁)
    fun _ s₂ _ hq₂ => ?_
  have hq₂' := Quiet.trans _ _ _ hq hq₂
  refine Reads.bind (collect_scan_reads hc q.reads s₂ hq₂') fun frames s₃ _ hq₃ => ?_
  have hw : s₃.faults.writesBack = false := (Quiet.trans _ _ _ hq₂' hq₃).alone.trans hc.alone
  exact Reads.bind (v := .ok ()) (g := fun _ => q.eval frames) (writeBack_reads hw q)
    fun _ _ _ _ => Reads.lift _

/-- The uniqueness check of one key without cache and cancel. -/
def enforceKeyPure (e : Engine V) (x : Option (Transaction V)) (t : String) (frame : Frame V)
    (key : List String) : Except DbError Unit := do
  let new ← nonNullKeys key frame
  if !key.isEmpty && decide (new.length ≠ new.dedup.length) then
    .error (.runtime ("UNIQUE violation: " ++ t ++ "." ++ pyList key ++
      " duplicate within INSERT batch"))
  else
    let visible ← look e x t (some key)
    let existing ← nonNullKeys key visible
    if existing.isEmpty then return ()
    else if key.isEmpty then
      .error (.value "No common columns to perform merge on")
    else
      let n := (new.map fun k => existing.count k).sum
      if n ≠ 0 then
        .error (.runtime ("UNIQUE violation: " ++ t ++ "." ++ pyList key ++ " " ++ toString n ++
          " row(s) already exist"))
      else return ()

theorem enforceKey_reads (hc : Pristine s) {s₁ : Session V} (hq : Quiet s s₁) (t : String)
    (f : Frame V) (key : List String) :
    Reads (enforceKey t f key) s₁ (enforceKeyPure s.eng s.txn t f key) := by
  unfold enforceKey enforceKeyPure
  refine Reads.bind (Reads.lift _) fun new s₂ _ hq₂ => ?_
  split
  · exact Reads.lift _
  · refine Reads.bind (Reads.scan hc (Quiet.trans _ _ _ hq hq₂) t (some key)) fun vis _ _ _ => ?_
    refine Reads.bind (Reads.lift _) fun existing _ _ _ => ?_
    split
    · exact Reads.pure ()
    · split
      · exact Reads.lift _
      · simp only
        split
        · exact Reads.lift _
        · exact Reads.pure ()

/-- `_enforce_unique` without cache and cancel. -/
def enforcePure (e : Engine V) (x : Option (Transaction V)) (t : String) (f : Frame V) :
    Except DbError Unit := do
  let info ← e.catalog.get t
  (declaredKeys info.constraints).forM fun key => enforceKeyPure e x t f key

theorem each_enforceKey_reads (hc : Pristine s) (t : String) (f : Frame V) :
    ∀ (keys : List (List String)) (s₁ : Session V), Quiet s s₁ →
      Reads (Proc.each (enforceKey t f) keys) s₁
        (keys.forM fun key => enforceKeyPure s.eng s.txn t f key)
  | [], _, _ => Reads.pure ()
  | key :: keys, _, hq => Reads.bind (enforceKey_reads hc hq t f key) fun _ s₂ _ hq₂ =>
      each_enforceKey_reads hc t f keys s₂ (Quiet.trans _ _ _ hq hq₂)

theorem enforceUnique_reads (hc : Pristine s) {s₁ : Session V} (hq : Quiet s s₁) (t : String)
    (f : Frame V) : Reads (enforceUnique t f) s₁ (enforcePure s.eng s.txn t f) :=
  Reads.bind (Reads.catalogGet hq t) fun _ s₂ _ hq₂ =>
    each_enforceKey_reads hc t f _ s₂ (Quiet.trans _ _ _ hq hq₂)

variable (H : Host V)

/-- The batch of an `INSERT .. VALUES`, without the session. -/
def batchPure (e : Engine V) (n : InsertNode V) : Except DbError (Frame V) := do
  let info ← e.catalog.get n.table
  valuesFrame H info n

omit [DecidableEq V] in
theorem insertBatch_reads (s : Session V) (n : InsertNode V) :
    Reads (insertBatch H n) s (batchPure H s.eng n) :=
  Reads.bind (catalogGet_reads n.table s) fun _ _ _ _ => Reads.lift _

/-- The batch of an `INSERT .. SELECT` without cache and cancel. -/
def sourcePure (e : Engine V) (x : Option (Transaction V)) (n : InsertSelectNode V) :
    Except DbError (Option (Frame V)) := do
  let info ← e.catalog.get n.table
  let cols ← targetColumns info n.table "INSERT" n.columns
  let src ← execPure e x n.source
  if src.rows.isEmpty then return none
  else if src.columns.length ≠ cols.length then
    .error (.parse ("INSERT ... SELECT column count mismatch: " ++
      toString src.columns.length ++ " source vs " ++ toString cols.length ++ " target"))
  else
    let frame ← selectFrame H info n.table cols src
    return some frame

theorem insertSource_reads (hc : Pristine s) (n : InsertSelectNode V) :
    Reads (insertSource H n) s (sourcePure H s.eng s.txn n) := by
  unfold insertSource sourcePure
  refine Reads.bind (catalogGet_reads n.table s) fun info s₁ _ hq => ?_
  refine Reads.bind (Reads.lift _) fun cols s₂ _ hq₂ => ?_
  refine Reads.bind (exec_reads hc (Quiet.trans _ _ _ hq hq₂) n.source) fun src _ _ _ => ?_
  split
  · exact Reads.pure none
  · split
    · exact Reads.lift _
    · exact Reads.bind (Reads.lift _) fun _ _ _ _ => Reads.pure _

/-- The rows a predicate selects, without cache and cancel. -/
def targetsPure (e : Engine V) (x : Option (Transaction V)) (t : String) (p : Option (Pred V)) :
    Except DbError (Frame V) := look e x t none >>= masked p

theorem targetsOf_reads (hc : Pristine s) {s₁ : Session V} (hq : Quiet s s₁) (t : String)
    (p : Option (Pred V)) : Reads (targetsOf t p) s₁ (targetsPure s.eng s.txn t p) :=
  Reads.bind (Reads.scan hc hq t none) fun _ _ _ _ => Reads.lift _

end Reads

/-- A reading part either stops the sequence with the session quiet, or hands its value on. -/
theorem Reads.cont {α β : Type} {x : Op V α} {s : Session V} {v : Except DbError α}
    (h : Reads x s v) (k : α → Op V β) :
    (∃ y s', (x >>= k) s = (.error y, s') ∧ Quiet s s') ∨
      ∃ a s₁, v = .ok a ∧ Quiet s s₁ ∧ (x >>= k) s = k a s₁ := by
  rcases hx : x s with ⟨r, s₁⟩
  cases r with
  | error y =>
    have hq := h.quiet
    rw [hx] at hq
    exact Or.inl ⟨y, s₁, Proc.bind_of_error hx, hq⟩
  | ok a =>
    obtain ⟨hv, hq⟩ := h.ok hx
    exact Or.inr ⟨a, s₁, hv, hq, Proc.bind_of_ok hx⟩

/-! ## 2. Write sets -/

/-- The transaction with the tombstones of a write set buffered. -/
def Flush.tombed (t : String) (w : Flush V) (x : Transaction V) : Transaction V :=
  let x := match w.update with
    | none => x
    | some g => x.tombstoneAppend t g true
  match w.delete with
  | none => x
  | some g => x.tombstoneAppend t g false

/-- The transaction with the write set buffered. -/
def Flush.buffered (t : String) (w : Flush V) (x : Transaction V) : Transaction V :=
  match w.new with
  | none => w.tombed t x
  | some f => (w.tombed t x).bufferAppend t f

@[simp] theorem Flush.snapshotTs_tombed (t : String) (w : Flush V) (x : Transaction V) :
    (w.tombed t x).snapshotTs = x.snapshotTs := by
  obtain ⟨u, d, n⟩ := w
  cases u <;> cases d <;> rfl

@[simp] theorem Flush.snapshotTs_buffered (t : String) (w : Flush V) (x : Transaction V) :
    (w.buffered t x).snapshotTs = x.snapshotTs := by
  obtain ⟨u, d, n⟩ := w
  cases u <;> cases d <;> cases n <;> rfl

@[simp] theorem Flush.bufferBatches_tombed (t u : String) (w : Flush V) (x : Transaction V) :
    (w.tombed t x).bufferBatches u = x.bufferBatches u := by
  obtain ⟨u', d, n⟩ := w
  cases u' <;> cases d <;> rfl

@[simp] theorem Flush.tombstones_tombed (t u : String) (w : Flush V) (x : Transaction V) :
    (w.tombed t x).tombstoneBatchesWithFlag u = x.tombstoneBatchesWithFlag u ++
      if u = t then (w.update.toList.map fun g => (g, true)) ++
        (w.delete.toList.map fun g => (g, false)) else [] := by
  obtain ⟨u', d, n⟩ := w
  by_cases h : u = t
  · subst h
    cases u' <;> cases d <;> simp [Flush.tombed]
  · cases u' <;> cases d <;> simp [Flush.tombed, h]

@[simp] theorem Flush.bufferBatches_buffered (t u : String) (w : Flush V) (x : Transaction V) :
    (w.buffered t x).bufferBatches u =
      x.bufferBatches u ++ if u = t then w.new.toList else [] := by
  obtain ⟨u', d, n⟩ := w
  by_cases h : u = t
  · subst h
    cases n <;> simp [Flush.buffered]
  · cases n <;> simp [Flush.buffered, h]

@[simp] theorem Flush.tombstones_buffered (t u : String) (w : Flush V) (x : Transaction V) :
    (w.buffered t x).tombstoneBatchesWithFlag u = (w.tombed t x).tombstoneBatchesWithFlag u := by
  obtain ⟨u', d, n⟩ := w
  cases n <;> rfl

/-- The batches of a commit are the writes of the transaction, table by table. -/
def Carries (bs : List (Batch V)) (x : Transaction V) : Prop :=
  ∀ u, insertsOf u bs = x.bufferBatches u ∧ tombsOf u bs = x.tombstoneBatchesWithFlag u

/-- Of batches listed table by table, those of one table. -/
theorem filter_flatMap_table {p : Batch V → Bool} {g : String → List (Batch V)} {u : String}
    (hg : ∀ t, ∀ b ∈ g t, p b = true ↔ t = u) : ∀ {names : List String}, names.Nodup →
      (names.flatMap g).filter p = if u ∈ names then g u else []
  | [], _ => rfl
  | t :: names, h => by
    obtain ⟨ht, hn⟩ := List.nodup_cons.mp h
    have ih := filter_flatMap_table hg hn
    rw [List.flatMap_cons, List.filter_append, ih]
    by_cases htu : t = u
    · subst htu
      rw [if_neg ht, if_pos List.mem_cons_self, List.append_nil]
      exact List.filter_eq_self.mpr fun b hb => (hg t b hb).mpr rfl
    · have hnil : (g t).filter p = [] :=
        List.filter_eq_nil_iff.mpr fun b hb hp => htu ((hg t b hb).mp hp)
      have hmem : (u ∈ t :: names) ↔ u ∈ names := by
        simp only [List.mem_cons, or_iff_right_iff_imp]
        exact fun h => absurd h.symm htu
      rw [hnil, List.nil_append]
      simp only [hmem]

theorem filter_flatMap_none {p : Batch V → Bool} {g : String → List (Batch V)}
    (hg : ∀ t, ∀ b ∈ g t, p b = false) (names : List String) : (names.flatMap g).filter p = [] := by
  refine List.filter_eq_nil_iff.mpr fun b hb => ?_
  obtain ⟨t, -, hb⟩ := List.mem_flatMap.mp hb
  rw [hg t b hb]
  exact Bool.false_ne_true

/-- **COMMIT flushes exactly the buffer.** -/
theorem commitBatches_carries (H : Host V) (x : Transaction V) :
    Carries (commitBatches H x) x := by
  intro u
  unfold commitBatches
  constructor
  · have hnames : u ∉ H.setOrder x.tableNames → x.bufferBatches u = [] := by
      intro h
      rw [H.mem_setOrder, Transaction.tableNames, List.mem_append, not_or, Dict.mem_active,
        not_not] at h
      exact h.1
    rw [insertsOf, List.filter_append,
      filter_flatMap_table (u := u) (by intro t b hb; obtain ⟨f, -, rfl⟩ := List.mem_map.mp hb; simp)
        (H.nodup_setOrder _),
      filter_flatMap_none (by
        intro t b hb
        obtain ⟨e, -, rfl⟩ := List.mem_map.mp hb
        cases e.2 <;> simp), List.append_nil]
    split
    · simp [Function.comp_def]
    · rename_i h
      rw [hnames h, List.map_nil]
  · have hnames : u ∉ x.tombstoneTables → x.tombstoneBatchesWithFlag u = [] := by
      intro h
      rwa [Transaction.tombstoneTables, Dict.mem_active, not_not] at h
    have hnd : x.tombstoneTables.Nodup := Dict.nodup_active _
    rw [tombsOf, List.filter_append,
      filter_flatMap_none (by intro t b hb; obtain ⟨f, -, rfl⟩ := List.mem_map.mp hb; simp),
      filter_flatMap_table (u := u) (by
        intro t b hb
        obtain ⟨e, -, rfl⟩ := List.mem_map.mp hb
        cases e.2 <;> simp) hnd, List.nil_append]
    split
    · rw [List.map_map]
      refine (List.map_congr_left fun e _ => ?_).trans (List.map_id _)
      obtain ⟨g, fl⟩ := e
      cases fl <;> rfl
    · rename_i h
      rw [hnames h, List.map_nil]

/-- The rows of a batch collide neither with each other nor with `rows` in a declared key. -/
def Admits (i : TableInfo V) (rows : List (Int × Row V)) (f : Frame V) : Prop :=
  ∀ key ∈ declaredKeys i.constraints, key ≠ [] →
    ((f.rows.map (keyOf key)).filter Key.nonNull).Nodup ∧
      ∀ y ∈ rows, ∀ r ∈ f.rows, Key.nonNull (keyOf key r) = true → keyOf key y.2 ≠ keyOf key r

/-- No row of the batch is NULL in a column declared NOT NULL. -/
def Required (i : TableInfo V) (f : Frame V) : Prop :=
  ∀ r ∈ f.rows, ∀ c ∈ i.columns, c ∈ i.constraints.notNull → (r c).isSome = true

/-- What a write set on `t` is known to be, when the statement saw the rows of transaction `x`. -/
def Flush.Ok [DecidableEq V] (H : Host V) (e : Engine V) (x : Transaction V) (t : String)
    (w : Flush V) : Prop :=
  ∃ i, e.catalog.tables.get? t = some i ∧
    (∀ f, w.new = some f → f.columns = i.columns ∧
      Admits i (seen e (some (w.tombed t x)) t) f ∧ (H.Exact → Required i f)) ∧
    ∀ g, g ∈ w.update.toList ++ w.delete.toList → ∃ p l, i.constraints.primaryKey = some p ∧
      (∀ col ∈ p, col ∈ i.columns) ∧ g = Frame.ofRows p l ∧
        ∀ r ∈ l, ∃ ts, (ts, r) ∈ seen e (some x) t

section Checks

variable [DecidableEq V] {e : Engine V} {x : Option (Transaction V)} {t : String}
  {i : TableInfo V}

omit [DecidableEq V] in
theorem forM_ok {α : Type} {g : α → Except DbError Unit} : ∀ {l : List α},
    l.forM g = .ok () → ∀ a ∈ l, g a = .ok ()
  | b :: l, h, a, ha => by
    have hb : (g b >>= fun _ => l.forM g) = .ok () := h
    cases hgb : g b with
    | error y => rw [hgb] at hb; cases hb
    | ok u =>
      rw [hgb] at hb
      rcases List.mem_cons.mp ha with rfl | ha
      · exact hgb
      · exact forM_ok hb a ha

omit [DecidableEq V] in
theorem nonNullKeys_ok {key : List String} {f : Frame V} {ks : List (Key V)}
    (h : nonNullKeys key f = .ok ks) : (∀ c ∈ key, c ∈ f.columns) ∧
      ks = (f.rows.map (keyOf key)).filter Key.nonNull := by
  unfold nonNullKeys at h
  split at h
  · rename_i hnil
    cases h
    refine ⟨fun c hc => ?_, ?_⟩
    · have := List.filter_eq_nil_iff.mp hnil c hc
      simpa using this
    · rw [Frame.dropna, Frame.filter_rows, List.filter_map]
      rfl
  · cases h

omit [DecidableEq V] in
/-- The keys without NULL of rows that were cut to the key. -/
theorem nonNullKeys_restrict {key : List String} {g : Frame V} {l : List (Int × Row V)}
    (hgc : g.columns = sortedSet key)
    (hgr : g.rows = l.map fun y => restrict (sortedSet key) y.2) :
    nonNullKeys key g = .ok ((l.map fun y => keyOf key y.2).filter Key.nonNull) := by
  have hin : ∀ c ∈ key, c ∈ sortedSet key := fun c hc => mem_sortedSet.mpr hc
  have hmiss : key.filter (fun c => decide (c ∉ g.columns)) = [] := by
    refine List.filter_eq_nil_iff.mpr fun c hc => ?_
    rw [hgc]
    simpa using hin c hc
  rw [nonNullKeys, hmiss]
  simp only [Frame.dropna, Frame.filter_rows, hgr, Except.ok.injEq]
  rw [List.filter_map, List.filter_map, List.map_map]
  simp only [Function.comp_def, keyOf_restrict hin]

/-- **A batch that passed the uniqueness check is admitted by the rows in sight.** -/
theorem enforcePure_ok (h : EngineOk e) (hx : TxnOk? e.catalog x)
    (hi : e.catalog.tables.get? t = some i) {f : Frame V} (hf : f.columns = i.columns)
    (hok : enforcePure e x t f = .ok ()) : Admits i (seen e x t) f := by
  intro key hkey hne
  have hforM : (declaredKeys i.constraints).forM
      (fun key => enforceKeyPure e x t f key) = .ok () := by
    rw [enforcePure, get_eq_ok.mpr hi] at hok
    exact hok
  have hk := forM_ok hforM key hkey
  unfold enforceKeyPure at hk
  have hkne : key.isEmpty = false := by
    cases key with
    | nil => exact absurd rfl hne
    | cons _ _ => rfl
  cases hnew : nonNullKeys key f with
  | error y => rw [hnew] at hk; cases hk
  | ok new =>
    obtain ⟨hsub, rfl⟩ := nonNullKeys_ok hnew
    rw [hf] at hsub
    obtain ⟨g, hg, hgc, hgr⟩ := look_project h hx hi hne hsub
    have hgk := nonNullKeys_restrict hgc hgr
    rw [hnew] at hk
    simp only [bind, Except.bind, hkne, Bool.not_false, Bool.true_and, hg, hgk] at hk
    split at hk
    · cases hk
    · rename_i hdup
      simp only [ne_eq, decide_not, Bool.not_eq_true', decide_eq_false_iff_not, not_not] at hdup
      have hnodup : ((f.rows.map (keyOf key)).filter Key.nonNull).Nodup := by
        rw [← List.dedup_eq_self]
        exact (List.dedup_sublist _).eq_of_length hdup.symm
      refine ⟨hnodup, fun y hy r hr hnn heq => ?_⟩
      have hmem : keyOf key r ∈ ((seen e x t).map fun y => keyOf key y.2).filter Key.nonNull :=
        List.mem_filter.mpr ⟨List.mem_map.mpr ⟨y, hy, heq⟩, hnn⟩
      split at hk
      · rename_i hempty
        rw [List.isEmpty_iff] at hempty
        rw [hempty] at hmem
        exact List.not_mem_nil hmem
      · simp only [Bool.false_eq_true, if_false] at hk
        split at hk
        · cases hk
        · rename_i hsum
          rw [not_not, List.sum_eq_zero_iff_forall_eq_nat] at hsum
          have hzero := hsum _ (List.mem_map.mpr ⟨keyOf key r,
            List.mem_filter.mpr ⟨List.mem_map.mpr ⟨r, hr, rfl⟩, hnn⟩, rfl⟩)
          rw [List.count_eq_zero] at hzero
          exact hzero hmem

/-- A transaction that begins now sees what is committed. -/
theorem seen_now (h : DeltaOk e) (t : String) :
    seen e (some { snapshotTs := e.commitTs }) t = seen e none t := by
  unfold seen
  cases e.catalog.tables.get? t with
  | none => rfl
  | some i =>
    have hins : (e.delta.batchesWithTs t).filter (fun b => decide (b.1 ≤ e.commitTs)) =
        e.delta.batchesWithTs t := List.filter_eq_self.mpr fun b hb => by
      simpa using (h.ins t b hb).1.2
    have htomb : (e.delta.tombstonesWithTs t).filter (fun b => decide (b.1 ≤ e.commitTs)) =
        e.delta.tombstonesWithTs t := List.filter_eq_self.mpr fun b hb => by
      simpa using (h.tomb t b hb).1.2
    simp only [insertEntries, tombEntries, DeltaStore.batchesAtWithTs_eq,
      DeltaStore.tombstonesAtWithTs_eq, hins, htomb, Transaction.bufferBatches_new,
      Transaction.tombstoneBatches_new, List.map_nil, List.append_nil]

end Checks

/-! ## 3. The effects -/

/-- The table a statement may write tombstones to. -/
def erases : Stmt V → Option String
  | .delete n => some n.table
  | .update n => some n.table
  | .merge n => some n.table
  | _ => none

/-- The primary key of `t` was not cleared, which leaves an empty key behind. -/
def Keyed (e : Engine V) (t : String) : Prop :=
  ∀ i, e.catalog.tables.get? t = some i → i.constraints.primaryKey ≠ some []

/-- What a statement can do to the session. -/
inductive Effect [DecidableEq V] (H : Host V) (st : Stmt V) (s : Session V) : Session V → Prop
  /-- Nothing but the cache and the cancel countdown moved. -/
  | quiet {s' : Session V} (hq : Quiet s s') : Effect H st s s'
  /-- An autocommit write set went to `_write_commit`, which may have raised. -/
  | write {s₁ : Session V} {t : String} {w : Flush V} {bs : List (Batch V)} (hx : s.txn = none)
      (hq : Quiet s s₁) (hbs : Carries bs (w.buffered t { snapshotTs := s.eng.commitTs }))
      (ht : w.update = none ∧ w.delete = none ∨ erases st = some t)
      (hw : EngineOk s.eng → (erases st = some t → Keyed s.eng t) →
        w.Ok H s.eng { snapshotTs := s.eng.commitTs } t) :
      Effect H st s (writeCommit H bs s₁).2
  /-- A write set was buffered in the open transaction. -/
  | buffer {s₁ : Session V} {t : String} {w : Flush V} {x : Transaction V} (hx : s.txn = some x)
      (hq : Quiet s s₁) (hu : w.update = none)
      (hd : w.delete = none ∨ ∃ n, st = .delete n ∧ n.table = t)
      (hw : EngineOk s.eng → TxnOk s.eng.catalog x → w.Ok H s.eng x t) :
      Effect H st s { s₁ with txn := some (w.buffered t x) }
  | begin (hst : st = .begin) (hx : s.txn = none) :
      Effect H st s { s with txn := some { snapshotTs := s.eng.commitTs } }
  /-- COMMIT ran, and may have raised. -/
  | commit {x : Transaction V} (hst : st = .commit) (hx : s.txn = some x) :
      Effect H st s (commit H s).2
  | rollback {x : Transaction V} (hx : s.txn = some x) : Effect H st s { s with txn := none }
  | snapshot (name : String) : Effect H st s { s with eng := { s.eng with
      snapshots := s.eng.snapshots.set name s.eng.commitTs } }
  /-- RESTORE passed its checks; the truncation of the log may have raised. -/
  | restore {name : String} {target : Int} (hst : st = .restoreToSnapshot name)
      (hx : s.txn = none) (hn : s.eng.snapshots.get? name = some target)
      (hle : target ≤ s.eng.commitTs) : Effect H st s (restoreTo target s).2

section Appends

variable (H : Host V) {s : Session V} {t : String}

theorem appendFrame_txn {x : Transaction V} (hx : s.txn = some x) (f : Frame V) :
    appendFrame H t f s = (.ok (), { s with txn := some (x.bufferAppend t f) }) := by
  obtain ⟨e, y, q⟩ := s
  simp only at hx
  subst hx
  rfl

theorem appendFrame_auto (hx : s.txn = none) (f : Frame V) :
    (appendFrame H t f s).2 = (writeCommit H [⟨t, .insert, f⟩] s).2 := by
  unfold appendFrame
  rw [Proc.get_bind, hx]
  simp only
  rcases hw : writeCommit H [⟨t, .insert, f⟩] s with ⟨r, s'⟩
  cases r with
  | error y => rw [Proc.bind_of_error hw]
  | ok ts => rw [Proc.bind_of_ok hw]; rfl

theorem appendTombstone_txn {x : Transaction V} (hx : s.txn = some x) (g : Frame V) :
    appendTombstone H t g s = (.ok (), { s with txn := some (x.tombstoneAppend t g false) }) := by
  obtain ⟨e, y, q⟩ := s
  simp only at hx
  subst hx
  rfl

theorem appendTombstone_auto (hx : s.txn = none) (g : Frame V) :
    (appendTombstone H t g s).2 = (writeCommit H [⟨t, .tombstone, g⟩] s).2 := by
  unfold appendTombstone
  rw [Proc.get_bind, hx]
  simp only
  rcases hw : writeCommit H [⟨t, .tombstone, g⟩] s with ⟨r, s'⟩
  cases r with
  | error y => rw [Proc.bind_of_error hw]
  | ok ts => rw [Proc.bind_of_ok hw]; rfl

theorem carries_insert (ts : Int) (f : Frame V) : Carries [⟨t, .insert, f⟩]
    ((⟨none, none, some f⟩ : Flush V).buffered t { snapshotTs := ts }) := by
  intro u
  by_cases hu : u = t
  · subst hu
    simp [insertsOf, tombsOf]
  · have hu' : ¬ t = u := fun h => hu h.symm
    simp [insertsOf, tombsOf, hu, hu']

theorem carries_tombstone (ts : Int) (g : Frame V) : Carries [⟨t, .tombstone, g⟩]
    ((⟨none, some g, none⟩ : Flush V).buffered t { snapshotTs := ts }) := by
  intro u
  by_cases hu : u = t
  · subst hu
    simp [insertsOf, tombsOf]
  · have hu' : ¬ t = u := fun h => hu h.symm
    simp [insertsOf, tombsOf, hu, hu']

/-- The log accepted the record: the store gets the batches. -/
theorem writeCommit_ok {bs : List (Batch V)} {u : Unit} {wal : Option Bytes}
    (h : Wal.writeCommit H s.eng.walEnabled s.eng.disk.wal s.faults.append (s.eng.commitTs + 1) bs =
      (.ok u, wal)) : writeCommit H bs s = (.ok (s.eng.commitTs + 1), { s with eng := { s.eng with
        commitTs := s.eng.commitTs + 1
        disk := { s.eng.disk with wal := wal }
        delta := s.eng.delta.addAll (s.eng.commitTs + 1) bs } }) := by
  unfold writeCommit
  simp only [h]

/-- The log raised: the timestamp is burnt. -/
theorem writeCommit_error {bs : List (Batch V)} {y : DbError} {wal : Option Bytes}
    (h : Wal.writeCommit H s.eng.walEnabled s.eng.disk.wal s.faults.append (s.eng.commitTs + 1) bs =
      (.error y, wal)) : writeCommit H bs s = (.error y, { s with eng := { s.eng with
        commitTs := s.eng.commitTs + 1
        disk := { s.eng.disk with wal := wal } } }) := by
  unfold writeCommit
  simp only [h]

/-- `_write_commit` neither reads nor changes the transaction slot. -/
theorem writeCommit_txn (bs : List (Batch V)) (y : Option (Transaction V)) :
    (writeCommit H bs { s with txn := y }).2 = { (writeCommit H bs s).2 with txn := y } ∧
      (writeCommit H bs { s with txn := y }).1 = (writeCommit H bs s).1 := by
  unfold writeCommit
  simp only
  split <;> exact ⟨rfl, rfl⟩

theorem commit_of_txn {x : Transaction V} (hx : s.txn = some x) : commit H s =
    match writeCommit H (commitBatches H x) s with
    | (.ok _, s') => (.ok (), { s' with txn := none })
    | (.error y, s') => (.error y, s') := by
  unfold commit
  rw [Proc.get_bind, hx]
  simp only
  rcases hw : writeCommit H (commitBatches H x) s with ⟨r, s'⟩
  cases r with
  | error y => rw [Proc.bind_of_error hw]
  | ok ts => rw [Proc.bind_of_ok hw]; rfl

/-- The session with the transaction of a running UPDATE or MERGE in its slot. -/
theorem Quiet.withTxn {s₁ : Session V} (hq : Quiet s s₁) (y : Option (Transaction V)) :
    Quiet { s with txn := y } { s₁ with txn := y } :=
  ⟨rfl, hq.catalog, hq.delta, hq.commitTs, hq.snapshots, hq.disk, hq.append, hq.truncate, hq.alone,
    hq.calm, fun hc => hq.coherent ⟨hc.coherent, hc.alone⟩, hq.bases⟩

/-- COMMIT of an implicit transaction, whatever becomes of it, is its commit outside one. -/
theorem onError_commit {x : Transaction V} (hx : s.txn = some x) :
    (Proc.onError (commit H) (fun s => { s with txn := none }) s).2 =
      (writeCommit H (commitBatches H x) { s with txn := none }).2 := by
  rw [(writeCommit_txn H (commitBatches H x) none).1, Proc.onError, commit_of_txn H hx]
  rcases writeCommit H (commitBatches H x) s with ⟨r, s'⟩
  cases r <;> rfl

/-- A restore that passed its checks: the store and the counter are rewound, files, catalog and cache
stay. -/
theorem restoreTo_state (hx : s.txn = none) {target : Int} (hle : target ≤ s.eng.commitTs) :
    ∃ wal snapshots, (restoreTo target s).2 = { s with eng := { s.eng with
      delta := s.eng.delta.rewind target
      commitTs := target
      snapshots := snapshots
      disk := { s.eng.disk with wal := wal } } } ∧
      ∀ n ts, snapshots.get? n = some ts → s.eng.snapshots.get? n = some ts := by
  have htr : ∀ s₁ : Session V, ∃ r wal, walTruncate target s₁ =
      (r, { s₁ with eng := { s₁.eng with disk := { s₁.eng.disk with wal := wal } } }) := by
    intro s₁
    unfold walTruncate
    split
    · split
      · exact ⟨_, s₁.eng.disk.wal, rfl⟩
      · split
        · exact ⟨_, s₁.eng.disk.wal, rfl⟩
        · exact ⟨_, _, rfl⟩
    · exact ⟨_, s₁.eng.disk.wal, rfl⟩
  obtain ⟨e, y, q⟩ := s
  simp only at hx hle
  subst hx
  unfold restoreTo
  rw [Proc.get_bind]
  simp only
  rw [if_neg (by omega), Proc.modify_bind]
  obtain ⟨r, wal, hr⟩ := htr ⟨{ e with delta := e.delta.rewind target, commitTs := target }, none, q⟩
  cases r with
  | error y =>
    rw [Proc.bind_of_error hr]
    exact ⟨wal, _, rfl, fun _ _ hn => hn⟩
  | ok u =>
    rw [Proc.bind_of_ok hr]
    refine ⟨wal, _, rfl, fun n ts hn => ?_⟩
    rw [Dict.get?_filter, Option.filter_eq_some_iff] at hn
    exact hn.1

end Appends

section Statements

variable [DecidableEq V] (H : Host V) {st : Stmt V} {s s₁ : Session V} {t : String}
  {i : TableInfo V}

/-- Appending a checked batch is a write set of new rows. -/
theorem appendFrame_effect (hq : Quiet s s₁) {f : Frame V}
    (hi : s.eng.catalog.tables.get? t = some i) (hf : f.columns = i.columns)
    (hreq : H.Exact → Required i f) (hok : enforcePure s.eng s.txn t f = .ok ()) :
    Effect H st s (appendFrame H t f s₁).2 := by
  cases hx : s.txn with
  | none =>
    rw [appendFrame_auto H (by rw [hq.txn, hx])]
    refine Effect.write (w := ⟨none, none, some f⟩) hx hq (carries_insert _ f)
      (Or.inl ⟨rfl, rfl⟩) fun he _ => ?_
    refine ⟨i, hi, ?_, by simp⟩
    intro g hg
    cases hg
    rw [hx] at hok
    refine ⟨hf, ?_, hreq⟩
    change Admits i (seen s.eng (some { snapshotTs := s.eng.commitTs }) t) f
    rw [seen_now he.delta t]
    exact enforcePure_ok he (by intro y hy; cases hy) hi hf hok
  | some x =>
    rw [appendFrame_txn H (by rw [hq.txn, hx])]
    refine Effect.buffer (w := ⟨none, none, some f⟩) hx hq rfl (Or.inl rfl) fun he hxo => ?_
    refine ⟨i, hi, ?_, by simp⟩
    intro g hg
    cases hg
    rw [hx] at hok
    exact ⟨hf, enforcePure_ok he (by intro y hy; cases hy; exact hxo) hi hf hok, hreq⟩

omit [DecidableEq V] in
theorem masked_ok {p : Option (Pred V)} {f g : Frame V} (h : masked p f = .ok g) :
    ∃ q, g = f.filter q := by
  cases p with
  | none =>
    cases h
    exact ⟨fun _ => true, Frame.ext rfl (by simp)⟩
  | some p =>
    unfold masked at h
    simp only [bind, Except.bind] at h
    split at h
    · cases h
    · cases h
      exact ⟨_, rfl⟩

/-- The rows a predicate selected are rows in sight. -/
theorem targetsPure_ok {e : Engine V} {x : Option (Transaction V)} (he : EngineOk e)
    (hx : TxnOk? e.catalog x) (hi : e.catalog.tables.get? t = some i) {p : Option (Pred V)}
    {g : Frame V} (h : targetsPure e x t p = .ok g) : g.columns = i.columns ∧
      ∀ r ∈ g.rows, ∃ ts, (ts, r) ∈ seen e x t := by
  obtain ⟨f, hf, hfc, hfr⟩ := look_seen he hx hi
  rw [targetsPure, hf] at h
  obtain ⟨q, rfl⟩ := masked_ok h
  refine ⟨hfc, fun r hr => ?_⟩
  have hr' := List.mem_of_mem_filter hr
  rw [hfr] at hr'
  obtain ⟨⟨ts, r'⟩, hy, rfl⟩ := List.mem_map.mp hr'
  exact ⟨ts, hy⟩

/-- Appending the keys of rows in sight is a write set of one DELETE tombstone. -/
theorem appendTombstone_effect (hq : Quiet s s₁) {n : DeleteNode V} (hst : st = .delete n)
    (hi : s.eng.catalog.tables.get? n.table = some i) {p : List String}
    (hp : i.constraints.primaryKey = some p) {targets g : Frame V}
    (hv : targetsPure s.eng s.txn n.table n.predicate = .ok targets)
    (hg : targets.select p = .ok g) : Effect H st s (appendTombstone H n.table g s₁).2 := by
  obtain ⟨hsub, rfl⟩ := Frame.select_ok.mp hg
  cases hx : s.txn with
  | none =>
    rw [appendTombstone_auto H (by rw [hq.txn, hx])]
    refine Effect.write (w := ⟨none, some (Frame.ofRows p targets.rows), none⟩) hx hq
      (carries_tombstone _ _) (Or.inr (by rw [hst]; rfl)) fun he _ => ?_
    refine ⟨i, hi, fun f hf => (by cases hf), ?_⟩
    intro g hg
    rw [hx] at hv
    obtain ⟨hc, hr⟩ := targetsPure_ok he (by intro y hy; cases hy) hi hv
    simp only [Option.toList_none, Option.toList_some, List.nil_append, List.mem_singleton] at hg
    refine ⟨p, targets.rows, hp, fun col hcol => by rw [← hc]; exact hsub col hcol, hg, ?_⟩
    rw [seen_now he.delta]
    exact hr
  | some x =>
    rw [appendTombstone_txn H (by rw [hq.txn, hx])]
    refine Effect.buffer (w := ⟨none, some (Frame.ofRows p targets.rows), none⟩) hx hq rfl
      (Or.inr ⟨n, hst, rfl⟩) fun he hxo => ?_
    refine ⟨i, hi, fun f hf => (by cases hf), ?_⟩
    intro g hg
    rw [hx] at hv
    obtain ⟨hc, hr⟩ := targetsPure_ok he (by intro y hy; cases hy; exact hxo) hi hv
    simp only [Option.toList_none, Option.toList_some, List.nil_append, List.mem_singleton] at hg
    exact ⟨p, targets.rows, hp, fun col hcol => by rw [← hc]; exact hsub col hcol, hg, hr⟩

/-- The tombstones are buffered first. -/
theorem flush_eq (w : Flush V) (s : Session V) : flush H t w s =
    Proc.onError (bufferNew t w.new >>= fun _ => commit H) (fun s => { s with txn := none })
      { s with txn := some (w.tombed t { snapshotTs := s.eng.commitTs }) } := by
  obtain ⟨u, d, n⟩ := w
  cases u <;> cases d <;> rfl

omit [DecidableEq V] in
/-- The implicit transaction is well shaped when its tombstones are keys of the table. -/
theorem Flush.txnOk_tombed {w : Flush V} {c : Catalog V} {ts : Int} {i : TableInfo V}
    (hi : c.tables.get? t = some i) (hk : i.constraints.primaryKey ≠ some [])
    (htomb : ∀ g ∈ w.update.toList ++ w.delete.toList,
      ∃ p, i.constraints.primaryKey = some p ∧ (∀ col ∈ p, col ∈ i.columns) ∧ g.columns = p) :
    TxnOk c (w.tombed t { snapshotTs := ts }) where
  ins u b hb := by
    rw [Flush.bufferBatches_tombed, Transaction.bufferBatches_new] at hb
    cases hb
  tomb u b hb := by
    rw [Flush.tombstones_tombed, Transaction.tombstoneBatches_new, List.nil_append] at hb
    split at hb
    · rename_i hu
      subst hu
      have hmem : b.1 ∈ w.update.toList ++ w.delete.toList := by
        rcases List.mem_append.mp hb with hb | hb
        · obtain ⟨g, hg, rfl⟩ := List.mem_map.mp hb
          exact List.mem_append_left _ hg
        · obtain ⟨g, hg, rfl⟩ := List.mem_map.mp hb
          exact List.mem_append_right _ hg
      obtain ⟨p, hp, hsub, hg⟩ := htomb b.1 hmem
      exact ⟨i, p, hi, hp, fun h => hk (h ▸ hp), hsub, hg⟩
    · cases hb

/-- **The implicit transaction** either stops quietly at the uniqueness check, or hands its write
set to `_write_commit`. -/
theorem flush_effect (hc : Pristine s) (hx : s.txn = none) (hq : Quiet s s₁) (w : Flush V)
    (ht : erases st = some t) (hi : s.eng.catalog.tables.get? t = some i)
    (hnew : EngineOk s.eng → ∀ f, w.new = some f → f.columns = i.columns ∧
      (H.Exact → Required i f))
    (htomb : EngineOk s.eng → ∀ g, g ∈ w.update.toList ++ w.delete.toList →
      ∃ p l, i.constraints.primaryKey = some p ∧ (∀ col ∈ p, col ∈ i.columns) ∧
        g = Frame.ofRows p l ∧ ∀ r ∈ l, ∃ ts, (ts, r) ∈ seen s.eng none t) :
    Effect H st s (flush H t w s₁).2 := by
  have htomb' : EngineOk s.eng → ∀ g, g ∈ w.update.toList ++ w.delete.toList →
      ∃ p l, i.constraints.primaryKey = some p ∧ (∀ col ∈ p, col ∈ i.columns) ∧
        g = Frame.ofRows p l ∧
          ∀ r ∈ l, ∃ ts, (ts, r) ∈ seen s.eng (some { snapshotTs := s.eng.commitTs }) t := by
    intro he
    rw [seen_now he.delta]
    exact htomb he
  rw [flush_eq, hq.commitTs]
  generalize hxt : w.tombed t { snapshotTs := s.eng.commitTs } = xt
  have hqt : Quiet { s with txn := some xt } { s₁ with txn := some xt } := hq.withTxn _
  -- dropping the implicit transaction again gives the session of an autocommit statement
  have hback : ∀ s₂ : Session V, Quiet { s with txn := some xt } s₂ →
      Quiet s { s₂ with txn := none } := by
    intro s₂ h
    have := h.withTxn none
    obtain ⟨e, y, q⟩ := s
    simp only at hx
    subst hx
    exact this
  cases hn : w.new with
  | none =>
    have hw : w.buffered t { snapshotTs := s.eng.commitTs } = xt := by
      rw [Flush.buffered, hn, hxt]
    have hrun : (bufferNew t none >>= fun _ => commit H : Op V Unit) = commit H := rfl
    rw [hrun, onError_commit H rfl]
    refine Effect.write (w := w) hx (hback _ hqt) ?_ (Or.inr ht) fun he _ => ?_
    · rw [hw]
      exact commitBatches_carries H xt
    · exact ⟨i, hi, fun f hf => (by rw [hn] at hf; cases hf), htomb' he⟩
  | some f =>
    have hw : w.buffered t { snapshotTs := s.eng.commitTs } = xt.bufferAppend t f := by
      rw [Flush.buffered, hn, hxt]
    rw [Proc.onError]
    have hcont := (enforceUnique_reads (s := { s with txn := some xt })
      ⟨hc.coherent, hc.alone⟩ hqt t f).cont
      fun _ => (onTxn (fun x => x.bufferAppend t f) >>= fun _ => commit H : Op V Unit)
    have hrun : ∀ s₂ : Session V, (bufferNew t (some f) >>= fun _ => commit H) s₂ =
        (enforceUnique t f >>= fun _ =>
          (onTxn (fun x => x.bufferAppend t f) >>= fun _ => commit H : Op V Unit)) s₂ := by
      intro s₂
      simp only [bufferNew, Proc.bind_apply, Proc.seq]
      rcases enforceUnique t f s₂ with ⟨r, s₃⟩
      cases r <;> rfl
    rw [hrun]
    rcases hcont with ⟨y, s', hrun', hq'⟩ | ⟨u, s₂, hv, hq', hrun'⟩
    · rw [hrun']
      exact Effect.quiet (hback s' (Quiet.trans _ _ _ hqt hq'))
    · have hs₂ : s₂.txn = some xt := by rw [hq'.txn]
      have hstep : (onTxn (fun x => x.bufferAppend t f) >>= fun _ => commit H : Op V Unit) s₂ =
          commit H { s₂ with txn := some (xt.bufferAppend t f) } := by
        rw [onTxn, Proc.modify_bind, hs₂]
        rfl
      have hfin := onError_commit H (s := { s₂ with txn := some (xt.bufferAppend t f) }) rfl
      rw [Proc.onError] at hfin
      rw [hrun', hstep, hfin]
      refine Effect.write (w := w) hx (hback s₂ (Quiet.trans _ _ _ hqt hq')) ?_ (Or.inr ht)
        fun he hk => ?_
      · rw [hw]
        exact commitBatches_carries H _
      · refine ⟨i, hi, fun g hg => ?_, htomb' he⟩
        rw [hn] at hg
        cases hg
        obtain ⟨hcols, hreq⟩ := hnew he f hn
        refine ⟨hcols, ?_, hreq⟩
        rw [hxt]
        refine enforcePure_ok he ?_ hi hcols hv
        intro y hy
        cases hy
        rw [← hxt]
        refine Flush.txnOk_tombed hi (hk ht i hi) fun g hg => ?_
        obtain ⟨p, l, hp, hsub, rfl, -⟩ := htomb he g hg
        exact ⟨p, hp, hsub, rfl⟩

end Statements

end RyuDB.Engine
