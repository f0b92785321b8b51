/-
# Restart rebuilds the delta

The engine keeps its committed delta twice: in memory and in the write-ahead log.  `Logged` says
that the two agree: the file is the concatenation of the records of a list of commits, their
timestamps increase and are at most the counter, and replaying them gives the delta in memory, per
table and channel.  Every effect of a statement keeps `Logged` for some list (`logged_effect`), and
an engine that is `Logged` is rebuilt by a restart, also after any prefix of the next commit record,
which rebuilds the delta before or after that commit (`Logged.recovers`).

An effect is what a statement does when no aggregate of it writes into a cached frame.  The log and the
delta do not depend on the cache, so the run theorem (`recovery`, in `Atomic`) is proved along another
path and asks nothing about aggregates; what it takes from here is the invariant, the start-up and the
restores.

Two faults break it, and the run is asked not to have them.  `_write_commit` writes the log before
the store and truncates a failed write back, so the log only differs when that truncation fails
too; `_restore_to` rewinds the store before it truncates the log, so one failing truncation is
enough (`restore_truncate_fault`).
-/
import RyuDB.History
import RyuDB.Sql
import RyuDB.NatHost

namespace RyuDB

variable {V : Type} {H : Host V}

/-! ## 1. Replaying a log -/

theorem replayDelta_flattenLog (log : List (LogEntry V)) :
    Engine.replayDelta (flattenLog log) = storeOf log := by
  induction log using List.reverseRecOn with
  | nil => rfl
  | append_singleton log c ih =>
    rw [storeOf_snoc, ← ih]
    simp only [Engine.replayDelta, flattenLog, List.flatMap_append, List.flatMap_singleton,
      List.foldl_append, List.foldl_map, DeltaStore.addAll]

theorem le_replayCommitTs (l : List (Int × Batch V)) :
    0 ≤ Engine.replayCommitTs l ∧ ∀ e ∈ l, e.1 ≤ Engine.replayCommitTs l := by
  induction l using List.reverseRecOn with
  | nil => exact ⟨le_refl _, by simp⟩
  | append_singleton l e ih =>
    have hmax : Engine.replayCommitTs (l ++ [e]) = max (Engine.replayCommitTs l) e.1 := by
      simp [Engine.replayCommitTs]
    rw [hmax]
    refine ⟨le_trans ih.1 (le_max_left _ _), fun e' he' => ?_⟩
    rcases List.mem_append.mp he' with he' | he'
    · exact le_trans (ih.2 e' he') (le_max_left _ _)
    · rw [List.mem_singleton.mp he']
      exact le_max_right _ _

theorem le_replayCommitTs_of_mem {log : List (LogEntry V)} {c : LogEntry V} (hc : c ∈ log)
    (hne : c.2 ≠ []) : c.1 ≤ Engine.replayCommitTs (flattenLog log) := by
  obtain ⟨b, hb⟩ := List.exists_mem_of_ne_nil _ hne
  exact (le_replayCommitTs (flattenLog log)).2 (c.1, b)
    (List.mem_flatMap.mpr ⟨c, hc, List.mem_map.mpr ⟨b, hb, rfl⟩⟩)

/-- Of table `t` the store holds what the commits `log` wrote. -/
def Describes (log : List (LogEntry V)) (d : DeltaStore V) (t : String) : Prop :=
  (storeOf log).batchesWithTs t = d.batchesWithTs t ∧
    (storeOf log).tombstonesWithTs t = d.tombstonesWithTs t

namespace Describes

variable {log : List (LogEntry V)} {d : DeltaStore V} {t : String}

theorem addAll (h : Describes log d t) (ts : Int) (bs : List (Batch V)) :
    Describes (log ++ [(ts, bs)]) (d.addAll ts bs) t := by
  obtain ⟨hb, ht⟩ := h
  unfold Describes
  simp only [storeOf_snoc, DeltaStore.batchesWithTs_addAll, DeltaStore.tombstonesWithTs_addAll,
    hb, ht, and_self]

theorem rewind (h : Describes log d t) (ts : Int) :
    Describes (log.filter fun c => decide (c.1 ≤ ts)) (d.rewind ts) t := by
  obtain ⟨hb, ht⟩ := h
  rw [Describes, DeltaStore.batchesWithTs_rewind, DeltaStore.tombstonesWithTs_rewind,
    DeltaStore.batchesAtWithTs_eq, DeltaStore.tombstonesAtWithTs_eq, ← hb, ← ht,
    batchesWithTs_storeOf, tombstonesWithTs_storeOf, batchesWithTs_storeOf,
    tombstonesWithTs_storeOf]
  constructor
  · refine (filter_flatMap_ts _ (fun c e he => ?_) ts log).symm
    obtain ⟨f, -, rfl⟩ := List.mem_map.mp he
    rfl
  · refine (filter_flatMap_ts _ (fun c e he => ?_) ts log).symm
    obtain ⟨g, -, rfl⟩ := List.mem_map.mp he
    rfl

end Describes

/-- The rewound store is the store of the commits that are kept. -/
theorem storeOf_filter (log : List (LogEntry V)) (ts : Int) {d : DeltaStore V}
    (h : DeltaStore.Same (storeOf log) d) :
    DeltaStore.Same (storeOf (log.filter fun c => decide (c.1 ≤ ts))) (d.rewind ts) := fun t =>
  Describes.rewind (h t) ts

/-- Truncating a log that may have no file yet. -/
theorem truncate_encodes_getD {log : List (LogEntry V)} {wal : Option Bytes}
    (h : Encodes H log (wal.getD [])) (hinc : (log.map Prod.fst).Pairwise (· < ·)) (maxTs : Int) :
    Encodes H (log.filter fun c => decide (c.1 ≤ maxTs))
      ((wal.map (Wal.truncate maxTs)).getD []) := by
  cases wal with
  | none =>
    have hnil : log = [] := by simpa using h.length_le
    subst hnil
    exact Encodes.nil
  | some file => exact truncate_encodes h hinc

theorem loadEntry_dataDir (files : Files V) (c : Catalog V) (e : SavedTable V) :
    (Catalog.loadEntry files c e).dataDir = c.dataDir := by
  unfold Catalog.loadEntry
  split <;> rfl

theorem load_dataDir (dir : Option String) (d : Disk V) :
    (Catalog.load dir d).dataDir = dir := by
  unfold Catalog.load
  split
  · have hfold : ∀ (l : List (SavedTable V)) (c : Catalog V),
        (l.foldl (Catalog.loadEntry d.parquet) c).dataDir = c.dataDir := by
      intro l
      induction l with
      | nil => exact fun _ => rfl
      | cons e l ih => exact fun c => (ih _).trans (loadEntry_dataDir d.parquet c e)
    rw [hfold]
  · rfl

namespace Engine

variable {s : Session V}

/-- What `_write_commit` does when failed appends are truncated back: it burns a timestamp, or appends
a record and its batches. -/
theorem writeCommit_cases (hen : s.eng.walEnabled = true)
    (hf : ∀ x, s.faults.append = some x → x.truncated = true) (bs : List (Batch V)) :
    (∃ wal, wal.getD [] = s.eng.disk.wal.getD [] ∧ (writeCommit H bs s).2.eng = { s.eng with
        commitTs := s.eng.commitTs + 1
        disk := { s.eng.disk with wal := wal } }) ∨
      ∃ r, bs ≠ [] ∧ buildRecord H (s.eng.commitTs + 1) bs = .ok r ∧
        (writeCommit H bs s).2.eng = { s.eng with
          commitTs := s.eng.commitTs + 1
          disk := { s.eng.disk with wal := some (s.eng.disk.wal.getD [] ++ r) }
          delta := s.eng.delta.addAll (s.eng.commitTs + 1) bs } := by
  cases hbs : bs.isEmpty with
  | true =>
    rw [List.isEmpty_iff] at hbs
    subst hbs
    rw [writeCommit_ok H rfl]
    exact Or.inl ⟨_, rfl, rfl⟩
  | false =>
    cases hr : buildRecord H (s.eng.commitTs + 1) bs with
    | error y =>
      have hwal := Wal.writeCommit_unbuilt s.eng.disk.wal s.faults.append hbs hr
      rw [← hen] at hwal
      rw [writeCommit_error H hwal]
      exact Or.inl ⟨some (s.eng.disk.wal.getD []), rfl, rfl⟩
    | ok r =>
      cases hfault : s.faults.append with
      | some x =>
        have hwal := Wal.writeCommit_failed s.eng.disk.wal hbs hr (hf x hfault)
        rw [← hen, ← hfault] at hwal
        rw [writeCommit_error H hwal]
        exact Or.inl ⟨some (s.eng.disk.wal.getD []), rfl, rfl⟩
      | none =>
        have hwal := Wal.writeCommit_done s.eng.disk.wal hbs hr
        rw [← hen, ← hfault] at hwal
        rw [writeCommit_ok H hwal]
        have hne : bs ≠ [] := fun h => by rw [h] at hbs; cases hbs
        exact Or.inr ⟨r, hne, rfl, rfl⟩

/-- A truncation that does not fail. -/
theorem walTruncate_done (hen : s.eng.walEnabled = true) (hf : s.faults.truncate = false)
    (ts : Int) : walTruncate ts s = (.ok (), { s with eng := { s.eng with
      disk := { s.eng.disk with wal := s.eng.disk.wal.map (Wal.truncate ts) } } }) := by
  obtain ⟨⟨c, sc, dl, n, sn, ⟨p, cat, wal⟩⟩, x, q⟩ := s
  unfold walTruncate
  rw [if_pos hen]
  cases wal with
  | none => rfl
  | some file =>
    have hq : q.truncate = false := hf
    simp only [hq, Bool.false_eq_true, if_false]
    rfl

/-- A restore that passed its checks and whose truncation does not fail. -/
theorem restoreTo_done (hen : s.eng.walEnabled = true) (hx : s.txn = none) {target : Int}
    (hle : target ≤ s.eng.commitTs) (hf : s.faults.truncate = false) :
    (restoreTo target s).2.eng = { s.eng with
      delta := s.eng.delta.rewind target
      commitTs := target
      snapshots := s.eng.snapshots.filter fun _ ts => decide (ts ≤ target)
      disk := { s.eng.disk with wal := s.eng.disk.wal.map (Wal.truncate target) } } := by
  unfold restoreTo
  rw [Proc.get_bind, hx]
  simp only
  rw [if_neg (by omega), Proc.modify_bind]
  have htr := walTruncate_done (s := { s with eng := { s.eng with
    delta := s.eng.delta.rewind target, commitTs := target } }) hen hf target
  rw [Proc.bind_of_ok htr]
  rfl

end Engine

/-! ## 2. The invariant -/

/-- The log on disk and the delta in memory hold the commits `log`. -/
structure Logged (H : Host V) (e : Engine V) (log : List (LogEntry V)) : Prop where
  enabled : e.walEnabled = true
  file : Encodes H log (e.disk.wal.getD [])
  same : DeltaStore.Same (storeOf log) e.delta
  increasing : (log.map Prod.fst).Pairwise (· < ·)
  bounds : ∀ c ∈ log, 1 ≤ c.1 ∧ c.1 ≤ e.commitTs
  nonempty : ∀ c ∈ log, c.2 ≠ []
  counter : 0 ≤ e.commitTs
  snapshots : ∀ n ts, e.snapshots.get? n = some ts → 0 ≤ ts ∧ ts ≤ e.commitTs

namespace Logged

variable {e : Engine V} {log : List (LogEntry V)}

/-- The invariant reads the log, the delta, the counter and the snapshots. -/
theorem congr (h : Logged H e log) {e' : Engine V} (hen : e'.walEnabled = e.walEnabled)
    (hwal : e'.disk.wal = e.disk.wal) (hd : e'.delta = e.delta) (hts : e'.commitTs = e.commitTs)
    (hs : e'.snapshots = e.snapshots) : Logged H e' log where
  enabled := by rw [hen]; exact h.enabled
  file := by rw [hwal]; exact h.file
  same := by rw [hd]; exact h.same
  increasing := h.increasing
  bounds := by rw [hts]; exact h.bounds
  nonempty := h.nonempty
  counter := by rw [hts]; exact h.counter
  snapshots := by rw [hs, hts]; exact h.snapshots

theorem quiet {s s' : Session V} (h : Logged H s.eng log) (hq : Engine.Quiet s s') :
    Logged H s'.eng log :=
  h.congr (by rw [Engine.walEnabled, Engine.walEnabled, hq.catalog]) (by rw [hq.disk]) hq.delta
    hq.commitTs hq.snapshots

/-- A commit appends a record and its batches, or burns a timestamp. -/
theorem writeCommit {s : Session V} (h : Logged H s.eng log) (bs : List (Batch V))
    (hf : ∀ x, s.faults.append = some x → x.truncated = true) :
    ∃ log', Logged H (Engine.writeCommit H bs s).2.eng log' := by
  have hcounter := h.counter
  have hsnap : ∀ n ts, s.eng.snapshots.get? n = some ts → 0 ≤ ts ∧ ts ≤ s.eng.commitTs + 1 := by
    intro n ts hn
    have := h.snapshots n ts hn
    omega
  rcases Engine.writeCommit_cases h.enabled hf bs with ⟨wal, hwal, he⟩ | ⟨r, hne, hr, he⟩
  · refine ⟨log, ?_⟩
    rw [he]
    refine ⟨h.enabled, ?_, h.same, h.increasing, fun c hc => ?_, h.nonempty, ?_, hsnap⟩
    · rw [hwal]
      exact h.file
    · have := h.bounds c hc
      simp only
      omega
    · simp only
      omega
  · refine ⟨log ++ [(s.eng.commitTs + 1, bs)], ?_⟩
    rw [he]
    refine ⟨h.enabled, h.file.snoc hr, fun t => Describes.addAll (h.same t) _ bs, ?_, ?_, ?_, ?_,
      hsnap⟩
    · rw [List.map_append, List.pairwise_append]
      refine ⟨h.increasing, by simp, ?_⟩
      intro a ha b hb
      obtain ⟨c, hc, rfl⟩ := List.mem_map.mp ha
      have hle := (h.bounds c hc).2
      simp only [List.map_cons, List.map_nil, List.mem_singleton] at hb
      omega
    · intro c hc
      rcases List.mem_append.mp hc with hc | hc
      · have := h.bounds c hc
        simp only
        omega
      · rw [List.mem_singleton.mp hc]
        simp only
        omega
    · intro c hc
      rcases List.mem_append.mp hc with hc | hc
      · exact h.nonempty c hc
      · rw [List.mem_singleton.mp hc]
        exact hne
    · simp only
      omega

/-- A restore whose truncation works cuts the log and the delta at the same timestamp. -/
theorem restoreTo {s : Session V} (h : Logged H s.eng log) (hx : s.txn = none) {target : Int}
    (h0 : 0 ≤ target) (hle : target ≤ s.eng.commitTs) (hf : s.faults.truncate = false) :
    ∃ log', Logged H (Engine.restoreTo target s).2.eng log' := by
  refine ⟨log.filter fun c => decide (c.1 ≤ target), ?_⟩
  rw [Engine.restoreTo_done h.enabled hx hle hf]
  refine ⟨h.enabled, truncate_encodes_getD h.file h.increasing target,
    storeOf_filter log target h.same, h.increasing.sublist (List.filter_sublist.map _), ?_,
    fun c hc => h.nonempty c (List.mem_of_mem_filter hc), h0, ?_⟩
  · intro c hc
    obtain ⟨hc, hle⟩ := List.mem_filter.mp hc
    exact ⟨(h.bounds c hc).1, by simpa using hle⟩
  · intro n ts hn
    rw [Dict.get?_filter, Option.filter_eq_some_iff] at hn
    exact ⟨(h.snapshots n ts hn.1).1, by simpa using hn.2⟩

end Logged

/-! ## 3. Start-up -/

section Start

variable {log : List (LogEntry V)} {file tail : Bytes} {d : Disk V} {dir : Option String}

/-- A process that starts on a log followed by a torn tail has the commits of the log. -/
theorem start_encodes (hdir : dir.isSome = true) (h : Encodes H log file)
    (htail : nextRecord tail = none) (hw : d.wal.getD [] = file ++ tail) :
    (Engine.start H dir d).delta = storeOf log ∧
      (Engine.start H dir d).commitTs = Engine.replayCommitTs (flattenLog log) ∧
      (Engine.start H dir d).disk.wal.getD [] = file ∧
      (Engine.start H dir d).snapshots = ∅ ∧ (Engine.start H dir d).walEnabled = true := by
  have hcat : (Catalog.load dir d).dataDir.isSome = true := by rw [load_dataDir, hdir]
  unfold Engine.start
  cases hwal : d.wal with
  | none =>
    rw [hwal, Option.getD_none] at hw
    obtain ⟨hfile, -⟩ := List.append_eq_nil_iff.mp hw.symm
    subst hfile
    have hlog : log = [] := by simpa using h.length_le
    subst hlog
    simp only [hdir, if_true, Engine.walEnabled, hcat, hwal]
    exact ⟨rfl, rfl, rfl, trivial, trivial⟩
  | some f =>
    rw [hwal, Option.getD_some] at hw
    subst hw
    simp only [hdir, if_true, replay_encodes h htail, replayDelta_flattenLog, Engine.walEnabled,
      hcat, Option.getD_some, and_self]

/-- What start-up finds is logged, and a torn tail is cut off. -/
theorem start_logged_torn (hdir : dir.isSome = true) (h : Encodes H log file)
    (htail : nextRecord tail = none) (hw : d.wal.getD [] = file ++ tail)
    (hinc : (log.map Prod.fst).Pairwise (· < ·)) (hpos : ∀ c ∈ log, 1 ≤ c.1)
    (hne : ∀ c ∈ log, c.2 ≠ []) : Logged H (Engine.start H dir d) log := by
  obtain ⟨hd, hts, hw, hs, hen⟩ := start_encodes hdir h htail hw
  refine ⟨hen, by rw [hw]; exact h, by rw [hd]; exact DeltaStore.Same.refl _, hinc, ?_, hne, ?_, ?_⟩
  · intro c hc
    rw [hts]
    exact ⟨hpos c hc, le_replayCommitTs_of_mem hc (hne c hc)⟩
  · rw [hts]
    exact (le_replayCommitTs _).1
  · intro n ts hn
    rw [hs] at hn
    cases hn

/-- What start-up finds is logged. -/
theorem start_logged (hdir : dir.isSome = true) (h : Encodes H log (d.wal.getD []))
    (hinc : (log.map Prod.fst).Pairwise (· < ·)) (hpos : ∀ c ∈ log, 1 ≤ c.1)
    (hne : ∀ c ∈ log, c.2 ≠ []) : Logged H (Engine.start H dir d) log :=
  start_logged_torn hdir h nextRecord_nil (List.append_nil _).symm hinc hpos hne

end Start

/-! ## 4. Runs -/

/-- The faults of a step spare the log: a failed append is truncated back, and the log truncation of
a restore works. -/
def Durable : Step V → Prop
  | .sql _ st faults => (∀ x, faults.append = some x → x.truncated = true) ∧
      ∀ name, st = .restoreToSnapshot name → faults.truncate = false
  | _ => True

section Runs

variable [DecidableEq V]

/-- **Every effect keeps the log and the delta together.** -/
theorem logged_effect {st : Stmt V} {s s' : Session V} {log : List (LogEntry V)}
    (h : Logged H s.eng log) (he : Engine.Effect H st s s')
    (hf : ∀ x, s.faults.append = some x → x.truncated = true)
    (ht : ∀ name, st = .restoreToSnapshot name → s.faults.truncate = false) :
    ∃ log', Logged H s'.eng log' := by
  cases he with
  | quiet hq => exact ⟨log, h.quiet hq⟩
  | write hx hq hbs _ _ => exact (h.quiet hq).writeCommit _ (by rw [hq.append]; exact hf)
  | buffer hx hq _ _ _ =>
    have hl := h.quiet hq
    exact ⟨log, hl⟩
  | begin _ hx => exact ⟨log, h⟩
  | @commit x hst hx =>
    obtain ⟨log', h'⟩ := h.writeCommit (Engine.commitBatches H x) hf
    refine ⟨log', ?_⟩
    rw [Engine.commit_of_txn H hx]
    rcases hw : Engine.writeCommit H (Engine.commitBatches H x) s with ⟨r, s₁⟩
    rw [hw] at h'
    cases r <;> exact h'
  | rollback hx => exact ⟨log, h⟩
  | snapshot name =>
    refine ⟨log, h.enabled, h.file, h.same, h.increasing, h.bounds, h.nonempty, h.counter, ?_⟩
    intro n ts hn
    rw [Dict.get?_set] at hn
    split at hn
    · cases hn
      exact ⟨h.counter, le_refl _⟩
    · exact h.snapshots n ts hn
  | restore hst hx hn hle =>
    exact h.restoreTo hx (h.snapshots _ _ hn).1 hle (ht _ hst)

/-- Effects touch neither files nor catalog, so where the queries leave the cached frames alone the
cache stays right. -/
theorem coherent_effect {st : Stmt V} {s s' : Session V} (hc : Engine.Pristine s)
    (he : Engine.Effect H st s s') : Engine.Coherent s'.eng := by
  have hwrite : ∀ (bs : List (Batch V)) (s₁ : Session V), Engine.Coherent s₁.eng →
      Engine.Coherent (Engine.writeCommit H bs s₁).2.eng := by
    intro bs s₁ h
    unfold Engine.writeCommit
    simp only
    split <;> exact h
  cases he with
  | quiet hq => exact hq.coherent hc
  | write hx hq hbs _ _ => exact hwrite _ _ (hq.coherent hc)
  | buffer hx hq _ _ _ => exact hq.coherent hc
  | begin _ hx => exact hc.coherent
  | @commit x hst hx =>
    have h := hwrite (Engine.commitBatches H x) s hc.coherent
    rw [Engine.commit_of_txn H hx]
    rcases hw : Engine.writeCommit H (Engine.commitBatches H x) s with ⟨r, s₁⟩
    rw [hw] at h
    cases r <;> exact h
  | rollback hx => exact hc.coherent
  | snapshot name => exact hc.coherent
  | @restore name target hst hx hn hle =>
    obtain ⟨wal, snapshots, hs', -⟩ := Engine.restoreTo_state hx hle
    rw [hs']
    exact hc.coherent

/-- The log and the delta of a world's engine agree. -/
def Recoverable (H : Host V) (w : World V) : Prop := ∃ log, Logged H w.eng log

omit [DecidableEq V] in
/-- A process that starts without a log. -/
theorem recoverable_init (H : Host V) (dir : String) (d : Disk V) (hd : d.wal = none) :
    Recoverable H (World.init H (some dir) d) := by
  refine ⟨[], start_logged rfl ?_ (by simp) (by simp) (by simp)⟩
  rw [hd]
  exact Encodes.nil

/-- Every timestamp in the delta is at most the counter. -/
def CounterCovers (e : Engine V) : Prop := ∀ t,
  (∀ b ∈ e.delta.batchesWithTs t, b.1 ≤ e.commitTs) ∧
    ∀ b ∈ e.delta.tombstonesWithTs t, b.1 ≤ e.commitTs

omit [DecidableEq V] in
theorem storeOf_covered {log : List (LogEntry V)} {e : Engine V}
    (hd : e.delta = storeOf log) (h : ∀ c ∈ log, c.1 ≤ e.commitTs) : CounterCovers e := by
  intro t
  rw [hd, batchesWithTs_storeOf, tombstonesWithTs_storeOf]
  constructor
  · intro b hb
    obtain ⟨c, hc, hb⟩ := List.mem_flatMap.mp hb
    obtain ⟨f, -, rfl⟩ := List.mem_map.mp hb
    exact h c hc
  · intro b hb
    obtain ⟨c, hc, hb⟩ := List.mem_flatMap.mp hb
    obtain ⟨g, -, rfl⟩ := List.mem_map.mp hb
    exact h c hc

/-- Start-up on the engine's disk rebuilds its delta, and start-up after a crash in the middle of the
next commit record rebuilds the delta before or after that commit. -/
def Recovers (H : Host V) (e : Engine V) : Prop :=
  DeltaStore.Same (Engine.start H e.catalog.dataDir e.disk).delta e.delta ∧
    CounterCovers (Engine.start H e.catalog.dataDir e.disk) ∧
    ∀ bs r k, buildRecord H (e.commitTs + 1) bs = .ok r →
      DeltaStore.Same (Engine.start H e.catalog.dataDir
          { e.disk with wal := some (e.disk.wal.getD [] ++ r.take k) }).delta e.delta ∨
        DeltaStore.Same (Engine.start H e.catalog.dataDir
          { e.disk with wal := some (e.disk.wal.getD [] ++ r.take k) }).delta
          (e.delta.addAll (e.commitTs + 1) bs)

omit [DecidableEq V] in
theorem Logged.recovers {e : Engine V} {log : List (LogEntry V)} (hl : Logged H e log) :
    Recovers H e := by
  obtain ⟨hdelta, hts, -⟩ := start_encodes hl.enabled hl.file nextRecord_nil
    (List.append_nil _).symm
  refine ⟨?_, ?_, ?_⟩
  · rw [hdelta]
    exact hl.same
  · refine storeOf_covered hdelta fun c hc => ?_
    rw [hts]
    exact le_replayCommitTs_of_mem hc (hl.nonempty c hc)
  · intro bs r k hr
    by_cases hk : k < r.length
    · obtain ⟨hcr, -⟩ := start_encodes (d := { e.disk with
        wal := some (e.disk.wal.getD [] ++ r.take k) }) hl.enabled hl.file
        (nextRecord_torn H hr hk) rfl
      left
      rw [hcr]
      exact hl.same
    · obtain ⟨hcr, -⟩ := start_encodes (d := { e.disk with
        wal := some (e.disk.wal.getD [] ++ r.take k) }) hl.enabled (hl.file.snoc hr)
        nextRecord_nil (by simp [List.take_of_length_le (by omega : r.length ≤ k)])
      right
      rw [hcr, storeOf_snoc]
      intro t
      obtain ⟨hb, ht⟩ := hl.same t
      simp only [DeltaStore.batchesWithTs_addAll, DeltaStore.tombstonesWithTs_addAll, hb, ht,
        and_self]

end Runs

/-! ## 5. A restore whose truncation fails -/

/-- Snapshot, insert, restore to the snapshot with a failing log truncation. -/
def truncateFault : List (Step Nat) :=
  [.sql 0 (.createSnapshot "a") {}, .sql 0 (insertKey "t" 1) {},
    .sql 0 (.restoreToSnapshot "a") { truncate := true }]

set_option maxRecDepth 20000 in
/-- The restore is over in memory, and start-up brings the insert back. -/
theorem restore_truncate_fault :
    ¬ Recovers natHost (Run.run (World.step natHost) (World.init natHost (some "d") oneTable)
      truncateFault).eng := by
  intro h
  have hb := congrArg List.length (h.1 "t").1
  revert hb
  with_unfolding_all decide

end RyuDB
