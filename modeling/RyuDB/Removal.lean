/-
# What a DELETE removes at COMMIT

A DELETE inside a transaction buffers the keys of the rows it selected.  At COMMIT these keys get a
timestamp above everything committed meanwhile, and every committed row with one of them goes, also
a row that somebody inserted after the transaction's snapshot.  `removed_iff` says that this is the
only way a COMMIT removes a row its DELETEs did not see: it removes seen rows only if and only if no
committed row younger than the snapshot has a key among its DELETE tombstones.

A run is watched by a log for each connection: the tagged rows its transaction saw when its DELETEs
ran (`Watch`).  The invariant (`Watched`) says that a snapshot row whose key is among the tombstones
is in the log: it was still in sight when the first tombstone with its key was written.
-/
import RyuDB.Isolation
import RyuDB.MergeColumns

namespace RyuDB

open Engine

variable {V : Type}

/-! ## 1. Watched runs -/

/-- A world and, for each connection, the rows its transaction saw at its DELETEs, with their
tables. -/
structure Watch (V : Type) where
  world : World V
  saw : Nat → List (String × Int × Row V)

section Watch

variable [DecidableEq V] (H : Host V)

/-- What is written to the log of a connection when it runs `st`: BEGIN empties it, a DELETE adds the
rows in sight. -/
def noted (w : World V) (c : Nat) (log : List (String × Int × Row V)) :
    Stmt V → List (String × Int × Row V)
  | .begin => if (w.txns.get? c).isNone then [] else log
  | .delete n => log ++ (seen w.eng (w.txns.get? c) n.table).map fun y => (n.table, y)
  | _ => log

/-- A step of a watched run. -/
def Watch.step (σ : Watch V) (a : Step V) : Watch V where
  world := σ.world.step H a
  saw :=
    match a with
    | .sql c st _ => fun d => if d = c then noted σ.world c (σ.saw c) st else σ.saw d
    | _ => σ.saw

/-- Watching does not change the run. -/
theorem watch_world : ∀ (σ : Watch V) (l : List (Step V)),
    (Run.run (Watch.step H) σ l).world = Run.run (World.step H) σ.world l
  | _, [] => rfl
  | σ, a :: l => watch_world (σ.step H a) l

/-- RESTORE comes only while no transaction is open; timestamps are still below the sentinel, and no
aggregate writes into a cached frame. -/
def Watchful (σ : Watch V) : Step V → Prop
  | .sql _ st faults => (∀ name, st = .restoreToSnapshot name → ∀ d, σ.world.txns.get? d = none) ∧
      σ.world.eng.commitTs < insInf ∧ faults.writesBack = false
  | .disconnect _ => True
  | .restart => False

/-- The log of an open transaction explains its tombstones. -/
structure Watched (e : Engine V) (x : Transaction V) (log : List (String × Int × Row V)) : Prop where
  lower : 0 ≤ x.snapshotTs
  upper : x.snapshotTs ≤ e.commitTs
  early : x.snapshotTs < insInf
  hard : ∀ t, ∀ g ∈ x.tombstoneBatchesWithFlag t, g.2 = false
  covered : ∀ t i y, e.catalog.tables.get? t = some i →
    y ∈ seen e (some { snapshotTs := x.snapshotTs }) t →
    keyOf (keyCols i) y.2 ∈ keysOf (keyCols i) false (x.tombstoneBatchesWithFlag t) → (t, y) ∈ log

/-- Every open transaction is watched. -/
structure Observed (σ : Watch V) : Prop where
  settled : World.Settled σ.world
  txns : ∀ c x, σ.world.txns.get? c = some x → Watched σ.world.eng x (σ.saw c)

end Watch

/-! ## 2. The log explains the tombstones -/

section Steps

variable [DecidableEq V] {H : Host V} {e : Engine V} {x : Transaction V}
  {log : List (String × Int × Row V)}

omit [DecidableEq V] in
theorem keysOf_true_nil {key : List String} {gs : List (Frame V × Bool)}
    (h : ∀ g ∈ gs, g.2 = false) : keysOf key true gs = [] := by
  have hnil : gs.filter (fun g => decide (g.2 = true)) = [] :=
    List.filter_eq_nil_iff.mpr fun g hg => by simp [h g hg]
  rw [keysOf, hnil]
  rfl

/-- A snapshot row without tombstone is in the view of its transaction. -/
theorem Watched.seen_of_snapshot (h : Watched e x log) (hd : DeltaOk e) {t : String}
    {i : TableInfo V} (hi : e.catalog.tables.get? t = some i) {y : Int × Row V}
    (hy : y ∈ seen e (some { snapshotTs := x.snapshotTs }) t)
    (hk : keyOf (keyCols i) y.2 ∉ keysOf (keyCols i) false (x.tombstoneBatchesWithFlag t)) :
    y ∈ seen e (some x) t := by
  rw [seen_txn hd x h.early hi, overlay, Versioned.layer, keysOf_true_nil (h.hard t)]
  refine List.mem_append_left _ (List.mem_filter.mpr ⟨hy, ?_⟩)
  simpa using hk

/-- A transaction whose engine moved without moving its snapshot. -/
theorem Watched.congr {e' : Engine V} (h : Watched e x log) (hcat : e'.catalog = e.catalog)
    (hts : e.commitTs ≤ e'.commitTs) (hview : ∀ (y : Transaction V) t,
      y.snapshotTs ≤ e.commitTs → seen e' (some y) t = seen e (some y) t) : Watched e' x log where
  lower := h.lower
  upper := le_trans h.upper hts
  early := h.early
  hard := h.hard
  covered := by
    intro t i y hi hy hk
    rw [hcat] at hi
    rw [hview { snapshotTs := x.snapshotTs } t h.upper] at hy
    exact h.covered t i y hi hy hk

theorem Watched.new {ts : Int} (h0 : 0 ≤ ts) (hts : ts ≤ e.commitTs) (hx : ts < insInf) :
    Watched e { snapshotTs := ts } ([] : List (String × Int × Row V)) :=
  ⟨h0, hts, hx, fun t g hg => (by cases hg), fun t i y _ _ hk => (by cases hk)⟩

/-- **A buffered write set**: a DELETE adds the rows in sight to the log, and its keys are keys of
rows in sight. -/
theorem Watched.buffered (h : Watched e x log) (hd : DeltaOk e) {t : String} {w : Flush V}
    (hu : w.update = none) {log' : List (String × Int × Row V)}
    (hsub : ∀ z ∈ log, z ∈ log')
    (hdel : w.delete ≠ none → ∀ y ∈ seen e (some x) t, (t, y) ∈ log') :
    Watched e (w.buffered t x) log' := by
  have htombs : ∀ u, (w.buffered t x).tombstoneBatchesWithFlag u = x.tombstoneBatchesWithFlag u ++
      if u = t then w.delete.toList.map (fun g => (g, false)) else [] := by
    intro u
    simp [hu]
  refine ⟨by simpa using h.lower, by simpa using h.upper, by simpa using h.early, ?_, ?_⟩
  · intro u g hg
    rw [htombs] at hg
    rcases List.mem_append.mp hg with hg | hg
    · exact h.hard u g hg
    · split at hg
      · obtain ⟨g', -, rfl⟩ := List.mem_map.mp hg
        rfl
      · cases hg
  · intro u i y hi hy hk
    rw [Flush.snapshotTs_buffered] at hy
    by_cases hmem : keyOf (keyCols i) y.2 ∈
        keysOf (keyCols i) false (x.tombstoneBatchesWithFlag u)
    · exact hsub _ (h.covered u i y hi hy hmem)
    · -- the key is new, so the row was in sight
      have hsight := h.seen_of_snapshot hd hi hy hmem
      rw [htombs] at hk
      by_cases hut : u = t
      · subst hut
        refine hdel ?_ y hsight
        intro hnone
        rw [hnone] at hk
        simp only [if_true, Option.toList_none, List.map_nil, List.append_nil] at hk
        exact hmem hk
      · rw [if_neg hut, List.append_nil] at hk
        exact absurd hk hmem

/-- The log only grows while the transaction is open, and a DELETE adds the rows in sight. -/
theorem mem_noted {w : World V} {c : Nat} (log : List (String × Int × Row V)) (st : Stmt V)
    (hx : w.txns.get? c = some x) :
    (∀ z ∈ log, z ∈ noted w c log st) ∧
      ∀ n, st = .delete n → ∀ y ∈ seen w.eng (some x) n.table,
        (n.table, y) ∈ noted w c log st := by
  cases st with
  | begin =>
    have hlog : noted w c log .begin = log := by simp [noted, hx]
    rw [hlog]
    exact ⟨fun z hz => hz, fun n hn => (by cases hn)⟩
  | delete n =>
    refine ⟨fun z hz => List.mem_append_left _ hz, fun m hm y hy => ?_⟩
    cases hm
    exact List.mem_append_right _ (List.mem_map.mpr ⟨y, by rw [hx]; exact hy, rfl⟩)
  | _ => exact ⟨fun z hz => hz, fun n hn => (by cases hn)⟩

/-- **One watched step.** -/
theorem observed_step (σ : Watch V) (a : Step V) (h : Observed σ) (ha : Watchful σ a) :
    Observed (σ.step H a) := by
  cases a with
  | restart => exact ha.elim
  | disconnect c =>
    refine ⟨World.settled_step (H := H) σ.world (.disconnect c) h.settled trivial, fun d x hx => ?_⟩
    change (σ.world.txns.erase c).get? d = some x at hx
    rw [Dict.get?_erase] at hx
    split at hx
    · cases hx
    · exact h.txns d x hx
  | sql c st faults =>
    obtain ⟨hrestore, hnow, halone⟩ := ha
    have hsettled := World.settled_step (H := H) σ.world (.sql c st faults) h.settled halone
    refine ⟨hsettled, ?_⟩
    have hsound := h.settled.eng
    obtain ⟨s', he, hs'⟩ := World.sql_effect H hsound.ok.coherent c st halone
    have hcat : s'.eng.catalog = σ.world.eng.catalog := World.effect_catalog he
    change ∀ d x, (σ.world.sql H c st faults).2.txns.get? d = some x →
      Watched (σ.world.sql H c st faults).2.eng x (if d = c then noted σ.world c (σ.saw c) st
        else σ.saw d)
    rw [hs']
    by_cases hnr : NoRestore st
    · obtain ⟨hts, hothers⟩ := effect_others he hnr
      have hkeep : ∀ x log, Watched σ.world.eng x log → Watched s'.eng x log := fun x log hx =>
        hx.congr hcat hts hothers
      intro d x hx
      rw [World.store_txns] at hx
      split at hx
      · rename_i hdc
        subst hdc
        rw [if_pos rfl]
        cases effect_change he hsound halone (h.settled.txns d) (fun t _ => h.settled.keyed t) hnr with
        | idle hview hxx =>
          rcases hxx with hxx | hxx
          · rw [hxx] at hx
            have h₀ := h.txns d x hx
            obtain ⟨hsub, -⟩ := mem_noted (σ.saw d) st hx
            exact hkeep _ _ ⟨h₀.lower, h₀.upper, h₀.early, h₀.hard, fun t i y hi hy hk =>
              hsub _ (h₀.covered t i y hi hy hk)⟩
          · rw [hxx] at hx
            cases hx
        | begin hst hnone hview hxx =>
          rw [hxx] at hx
          cases hx
          have hempty : noted σ.world d (σ.saw d) st = [] := by
            have hnone' : σ.world.txns.get? d = none := hnone
            simp [hst, noted, hnone']
          rw [hempty]
          exact hkeep _ _ (Watched.new hsound.counter (le_refl _) hnow)
        | @buffer t w x₀ hview hx₀ hx' hu hd hw =>
          rw [hx'] at hx
          cases hx
          obtain ⟨hsub, hdel⟩ := mem_noted (σ.saw d) st hx₀
          refine hkeep _ _ ((h.txns d x₀ hx₀).buffered hsound.ok.delta hu hsub fun hne => ?_)
          obtain ⟨n, hst, htab⟩ := hd.resolve_left hne
          rw [← htab]
          exact hdel n hst
        | write hx' _ _ => rw [hx'] at hx; cases hx
        | commit _ _ hx' _ => rw [hx'] at hx; cases hx
      · rename_i hdc
        rw [if_neg hdc]
        exact hkeep _ _ (h.txns d x hx)
    · -- a RESTORE, with no transaction open before or after it
      obtain ⟨name, hst⟩ : ∃ name, st = .restoreToSnapshot name := by
        cases st <;> first | exact ⟨_, rfl⟩ | exact absurd trivial hnr
      subst hst
      have hclosed := hrestore name rfl
      intro d x hx
      rw [World.store_txns] at hx
      split at hx
      · rw [effect_restore_txn he (hclosed c)] at hx
        cases hx
      · rw [hclosed d] at hx
        cases hx

/-! ## 3. COMMIT -/

/-- The rows that were committed before and are not afterwards. -/
def Removed (e e' : Engine V) (t : String) (y : Int × Row V) : Prop :=
  y ∈ seen e none t ∧ y ∉ seen e' none t

/-- Every removed row was in the log, and none is younger than the snapshot. -/
def RemovesSeen (e e' : Engine V) (x : Transaction V) (log : List (String × Int × Row V)) : Prop :=
  ∀ t y, Removed e e' t y → (t, y) ∈ log ∧ y.1 ≤ x.snapshotTs

/-- No committed row younger than the snapshot has a key among the DELETE tombstones. -/
def Spares (e : Engine V) (x : Transaction V) : Prop := ∀ t i y,
  e.catalog.tables.get? t = some i → y ∈ seen e none t → x.snapshotTs < y.1 →
    keyOf (keyCols i) y.2 ∉ keysOf (keyCols i) false (x.tombstoneBatchesWithFlag t)

/-- A COMMIT removes the rows whose key its DELETE tombstones name. -/
theorem Watched.removed_iff (h : Watched e x log) (hs : Sound e) {s s' : Session V}
    (hse : s.eng = e) (hlay : Lays s s' x) {t : String} {i : TableInfo V}
    (hi : e.catalog.tables.get? t = some i) {y : Int × Row V} (hy : y ∈ seen e none t) :
    y ∉ seen s'.eng none t ↔
      keyOf (keyCols i) y.2 ∈ keysOf (keyCols i) false (x.tombstoneBatchesWithFlag t) := by
  subst hse
  have hle := (seen_bounds hs.ok.delta hs.counter hy).2
  rw [hlay t i hi, overlay, Versioned.layer, keysOf_true_nil (h.hard t), List.mem_append,
    List.mem_filter, List.mem_map]
  simp only [hy, true_and, List.not_mem_nil, not_false_eq_true, and_true, decide_eq_true_eq]
  constructor
  · intro hn
    by_contra hk
    exact hn (Or.inl hk)
  · rintro hk (hk' | ⟨r, -, heq⟩)
    · exact hk' hk
    · rw [← heq] at hle
      simp only at hle
      omega

/-- **A COMMIT removes only what its DELETEs saw exactly when it spares the younger rows.** -/
theorem Watched.removes_iff (h : Watched e x log) (hs : Sound e) {s s' : Session V} (hse : s.eng = e)
    (hlay : Lays s s' x) : RemovesSeen e s'.eng x log ↔ Spares e x := by
  constructor
  · intro hrem t i y hi hy hlt hk
    have := (hrem t y ⟨hy, (h.removed_iff hs hse hlay hi hy).mpr hk⟩).2
    omega
  · intro hsp t y ⟨hy, hgone⟩
    cases hi : e.catalog.tables.get? t with
    | none =>
      unfold seen at hy
      rw [hi] at hy
      cases hy
    | some i =>
      have hk := (h.removed_iff hs hse hlay hi hy).mp hgone
      have hold : y.1 ≤ x.snapshotTs := by
        by_contra hlt
        exact hsp t i y hi hy (by omega) hk
      refine ⟨h.covered t i y hi ?_ hk, hold⟩
      exact (seen_old_sublist hs.ok.delta x.snapshotTs h.lower t).subset
        (List.mem_filter.mpr ⟨hy, by simpa using hold⟩)

/-- **What a COMMIT removes, in every interleaving.**  After any watchful run of any number of
connections from a world without open transactions, a COMMIT of a connection that succeeds removes
only rows that its transaction saw when its DELETEs ran, and none committed after its snapshot, if
and only if no committed row younger than its snapshot has a key among its DELETE tombstones.  The
run stays plain: `_merge_delta` then matches the key that a tombstone holds, and not a flag or a
timestamp that it has written over it. -/
theorem commit_removes_seen (M : Merger V) {w : World V} (hw : World.Settled w)
    (hidle : ∀ c, w.txns.get? c = none) {l : List (Step V)}
    (hl : Run.Along (Watch.step H)
      (fun σ a => Watchful σ a ∧ World.StaysPlain M σ.world (σ.step H a).world) ⟨w, fun _ => []⟩ l)
    {c : Nat} {faults : Faults}
    {x : Transaction V} {r : Result V}
    (hx : (Run.run (Watch.step H) ⟨w, fun _ => []⟩ l).world.txns.get? c = some x)
    (hok : ((Run.run (Watch.step H) ⟨w, fun _ => []⟩ l).world.sql H c .commit faults).1 = .ok r) :
    RemovesSeen (Run.run (Watch.step H) ⟨w, fun _ => []⟩ l).world.eng
        ((Run.run (Watch.step H) ⟨w, fun _ => []⟩ l).world.sql H c .commit faults).2.eng x
        ((Run.run (Watch.step H) ⟨w, fun _ => []⟩ l).saw c) ↔
      Spares (Run.run (Watch.step H) ⟨w, fun _ => []⟩ l).world.eng x := by
  have hinit : Observed (⟨w, fun _ => []⟩ : Watch V) := by
    refine ⟨hw, fun d y hy => ?_⟩
    change w.txns.get? d = some y at hy
    rw [hidle d] at hy
    cases hy
  have hwatchful : Run.Along (Watch.step H) Watchful ⟨w, fun _ => []⟩ l := hl.mono fun _ _ h => h.1
  have hobs := hwatchful.invariant observed_step hinit
  generalize Run.run (Watch.step H) ⟨w, fun _ => []⟩ l = σ at hx hok hobs
  have hs := hobs.settled.eng
  obtain ⟨e', hrun, hcom, -, -⟩ := sql_commit_ok (s := σ.world.session c faults) hx hok
  have hlay : Lays (σ.world.session c faults) ⟨e', none, faults⟩ x := fun u i hi =>
    seen_commit hs.ok.delta hs.counter hcom (commitBatches_carries H x) hi
  have hend : (σ.world.sql H c .commit faults).2.eng = e' := by
    rw [World.sql, hrun]
    rfl
  rw [hend]
  exact (hobs.txns c x hx).removes_iff hs rfl hlay

end Steps

/-! ## 4. A row inserted after the snapshot -/

/-- Connection 0 begins and deletes the row 1; connection 1 deletes it too and inserts it again. -/
def overtaken : List (Step Nat) :=
  [.sql 1 (insertKey "t" 1) {}, .sql 0 .begin {}, .sql 0 (deleteKey "t" 1) {},
    .sql 1 (deleteKey "t" 1) {}, .sql 1 (insertKey "t" 1) {}]

/-- The watched world after it. -/
@[irreducible] def overtakenWatch : Watch Nat :=
  Run.run (Watch.step natHost) ⟨started, fun _ => []⟩ overtaken

set_option maxRecDepth 10000 in
/-- The COMMIT of connection 0 removes the new row, which its DELETE did not see. -/
theorem overtaken_delete : ∃ x r, overtakenWatch.world.txns.get? 0 = some x ∧
    (overtakenWatch.world.sql natHost 0 .commit {}).1 = .ok r ∧
    ¬ RemovesSeen overtakenWatch.world.eng
      (overtakenWatch.world.sql natHost 0 .commit {}).2.eng x (overtakenWatch.saw 0) := by
  have hsnap : (overtakenWatch.world.txns.get? 0).map (fun x => x.snapshotTs) = some 1 := by
    with_unfolding_all decide
  have hok : (overtakenWatch.world.sql natHost 0 .commit {}).1.toBool = true := by with_unfolding_all decide
  have hbefore : (seen overtakenWatch.world.eng none "t").map Prod.fst = [3] := by with_unfolding_all decide
  have hafter : (seen (overtakenWatch.world.sql natHost 0 .commit {}).2.eng none "t").length = 0 := by
    with_unfolding_all decide
  obtain ⟨x, hx, hts⟩ := Option.map_eq_some_iff.mp hsnap
  obtain ⟨r, hr⟩ := exists_of_toBool hok
  refine ⟨x, r, hx, hr, fun hrem => ?_⟩
  have hmem : (3 : Int) ∈ (seen overtakenWatch.world.eng none "t").map Prod.fst := by
    rw [hbefore]
    exact List.mem_singleton.mpr rfl
  obtain ⟨y, hy, hy3⟩ := List.mem_map.mp hmem
  have hgone : y ∉ seen (overtakenWatch.world.sql natHost 0 .commit {}).2.eng none "t" := by
    rw [List.length_eq_zero_iff.mp hafter]
    exact List.not_mem_nil
  have hle := (hrem "t" y ⟨hy, hgone⟩).2
  omega

/-- The same transaction when connection 1 stays away. -/
def undisturbed : List (Step Nat) :=
  [.sql 1 (insertKey "t" 1) {}, .sql 0 .begin {}, .sql 0 (deleteKey "t" 1) {}]

set_option maxRecDepth 10000 in
/-- Its COMMIT removes only what its DELETE saw. -/
theorem commit_removes_seen_undisturbed : ∃ x,
    (Run.run (Watch.step natHost) ⟨started, fun _ => []⟩ undisturbed).world.txns.get? 0 = some x ∧
      RemovesSeen (Run.run (Watch.step natHost) ⟨started, fun _ => []⟩ undisturbed).world.eng
        ((Run.run (Watch.step natHost) ⟨started, fun _ => []⟩ undisturbed).world.sql natHost 0
          .commit {}).2.eng x
        ((Run.run (Watch.step natHost) ⟨started, fun _ => []⟩ undisturbed).saw 0) := by
  have hplain : ∀ n, (Run.run (Watch.step natHost) ⟨started, fun _ => []⟩
      (undisturbed.take n)).world.Plain natMerger := by
    intro n
    rw [watch_world]
    refine started_plain fun a ha => ?_
    have hall : ∀ a ∈ undisturbed, World.Live a := by
      simp [undisturbed, World.Live, Step.LeavesCache]
    exact hall a (List.mem_of_mem_take ha)
  have hl : Run.Along (Watch.step natHost) (fun σ a => Watchful σ a ∧
      World.StaysPlain natMerger σ.world (σ.step natHost a).world) ⟨started, fun _ => []⟩
        undisturbed :=
    ⟨⟨⟨fun name h => (by cases h), by with_unfolding_all decide, rfl⟩, hplain 0, hplain 1⟩,
      ⟨⟨fun name h => (by cases h), by with_unfolding_all decide, rfl⟩, hplain 1, hplain 2⟩,
      ⟨⟨fun name h => (by cases h), by with_unfolding_all decide, rfl⟩, hplain 2, hplain 3⟩, trivial⟩
  have hsnap : ((Run.run (Watch.step natHost) ⟨started, fun _ => []⟩ undisturbed).world.txns.get?
      0).map (fun x => x.snapshotTs) = some 1 := by with_unfolding_all decide
  have hts : (Run.run (Watch.step natHost) ⟨started, fun _ => []⟩ undisturbed).world.eng.commitTs =
      1 := by with_unfolding_all decide
  have hok : ((Run.run (Watch.step natHost) ⟨started, fun _ => []⟩ undisturbed).world.sql natHost 0
      .commit {}).1.toBool = true := by with_unfolding_all decide
  obtain ⟨x, hx, hx1⟩ := Option.map_eq_some_iff.mp hsnap
  obtain ⟨r, hr⟩ := exists_of_toBool hok
  refine ⟨x, hx, (commit_removes_seen natMerger started_settled started_idle hl hx hr).mpr ?_⟩
  have hinit : Observed (⟨started, fun _ => []⟩ : Watch Nat) :=
    ⟨started_settled, fun c y hy => by rw [started_idle] at hy; cases hy⟩
  have hs := ((hl.mono fun _ _ h => h.1).invariant observed_step hinit).settled.eng
  intro t i y _ hy hlt
  have := (seen_bounds hs.ok.delta hs.counter hy).2
  omega

end RyuDB
