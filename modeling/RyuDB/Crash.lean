/-
# Interrupted checkpoints

A checkpoint folds table after table and truncates the log once, at the end.  It can stop on the
way: the cancel event is seen, a scan or a cast raises, the temporary file cannot be written, the
truncation raises, or the process dies between two writes.  `Stopped` lists these points.

The engine that goes on shows the rows it showed (`Folded.look_eq`).  A restart reads the whole log
over bases that already hold a part of it.  That is harmless for a table exactly when it is
`Absorbed`: every row its delta shows has a key that one of its tombstones names, so that the copy
in the base is hidden (`look_refold`).  A delta of updates is absorbed, an insert is not
(`crash_repeats_insert`).

What is `Absorbed` is decided by the delta: an insert alone is not, since nothing names its key; an
update that keeps the key is, since it has left a tombstone of the row it replaced.  So the condition
under which a crash does no harm can be read off the statements since the last checkpoint, and the
source has nothing that keeps to it.
-/
import RyuDB.Upkeep

namespace RyuDB

variable {V : Type}

open Versioned

namespace Engine

/-! ## 1. Points where a checkpoint stops -/

/-- How far a checkpoint came. -/
inductive Stop where
  /-- These tables were folded, and the next one raised before anything of it was published. -/
  | raised (done : List String)
  /-- These tables were folded, and the process died after `k` writes of `t`. -/
  | crashed (done : List String) (t : String) (k : Nat)
  /-- All tables were folded; the truncation raised, or the process died before it. -/
  | folded
  /-- The process died after the truncation. -/
  | truncated

/-- The files after a write that did not finish: the temporary name holds anything. -/
def torn (p : Path) (left : Option (Parquet V)) (d : Files V) : Files V :=
  match left with
  | none => d.erase p
  | some f => d.set p f

theorem get?_torn {p q : Path} (left : Option (Parquet V)) (d : Files V) (h : q ≠ p) :
    (torn p left d).get? q = d.get? q := by
  unfold torn
  cases left with
  | none => rw [Dict.get?_erase, if_neg h]
  | some f => rw [Dict.get?_set, if_neg h]

/-- The checkpoint that was started in `s` stopped in `s'`. -/
inductive Stopped [DecidableEq V] (H : Host V) (s : Session V) : Stop → Session V → Prop
  | reading {done rest : List String} {t : String} {ws : List (Option (String × Nat))}
      {s₁ s₂ : Session V} {x : DbError}
      (ht : H.setOrder s.eng.delta.tableNames = done ++ t :: rest)
      (hd : Proc.collect foldTable done s = (.ok ws, s₁)) (hx : foldTable t s₁ = (.error x, s₂)) :
      Stopped H s (.raised done) s₂
  | writing {done rest : List String} {t : String} {ws : List (Option (String × Nat))}
      {s₁ s₂ : Session V} {f : Fold V}
      (ht : H.setOrder s.eng.delta.tableNames = done ++ t :: rest)
      (hd : Proc.collect foldTable done s = (.ok ws, s₁)) (hf : foldRead t s₁ = (.ok f, s₂))
      (left : Option (Parquet V)) : Stopped H s (.raised done)
        { s₂ with eng := s₂.eng.withFiles (torn f.info.tmpPath left s₂.eng.disk.parquet) }
  | crash {done rest : List String} {t : String} {ws : List (Option (String × Nat))}
      {s₁ s₂ : Session V} {f : Fold V} {k : Nat} {e : Engine V}
      (ht : H.setOrder s.eng.delta.tableNames = done ++ t :: rest)
      (hd : Proc.collect foldTable done s = (.ok ws, s₁)) (hf : foldRead t s₁ = (.ok f, s₂))
      (he : applyAll (f.writes.take k) s₂.eng = .ok e) :
      Stopped H s (.crashed done t k) { s₂ with eng := e }
  | folded {ws : List (Option (String × Nat))} {s₁ : Session V}
      (hd : Proc.collect foldTable (H.setOrder s.eng.delta.tableNames) s = (.ok ws, s₁)) :
      Stopped H s .folded s₁
  | truncated {ws : List (Option (String × Nat))} {s₁ s₂ : Session V}
      (hd : Proc.collect foldTable (H.setOrder s.eng.delta.tableNames) s = (.ok ws, s₁))
      (htr : walTruncate 0 s₁ = (.ok (), s₂)) : Stopped H s .truncated s₂

/-- The stop is an exception, after which the engine goes on. -/
def Stop.live : Stop → Prop
  | .raised _ => True
  | .folded => True
  | _ => False

section Stops

variable [DecidableEq V] {H : Host V} {s s' : Session V}

/-- A checkpoint that raised after its checks raised in the loop, or behind it at the log. -/
theorem checkpoint_raised_cases (hx : s.txn = none) (hdir : s.eng.catalog.dataDir.isSome = true)
    {x : DbError} (hr : checkpoint H s = (.error x, s')) :
    (∃ done t rest ws s₁, H.setOrder s.eng.delta.tableNames = done ++ t :: rest ∧
      Proc.collect foldTable done s = (.ok ws, s₁) ∧ foldTable t s₁ = (.error x, s')) ∨
      ∃ ws, Proc.collect foldTable (H.setOrder s.eng.delta.tableNames) s = (.ok ws, s') := by
  obtain ⟨dir, hdir⟩ := Option.isSome_iff_exists.mp hdir
  unfold checkpoint at hr
  rw [Proc.get_bind, hx] at hr
  simp only [hdir] at hr
  split at hr
  · cases hr
  · rcases Proc.bind_error.mp hr with hr | ⟨ws, s₁, hd, hr⟩
    · obtain ⟨done, t, rest, ws, s₁, ht, hd, hx⟩ := Proc.collect_error hr
      exact Or.inl ⟨done, t, rest, ws, s₁, ht, hd, hx⟩
    · rcases Proc.bind_error.mp hr with hr | ⟨u, s₂, -, hr⟩
      · have hsame : s' = s₁ := by
          unfold walTruncate at hr
          split at hr
          · split at hr
            · cases hr
            · split at hr
              · cases hr
                rfl
              · cases hr
          · cases hr
        subst hsame
        exact Or.inr ⟨ws, hd⟩
      · cases hr

/-- It stopped at one of the points. -/
theorem checkpoint_raised (hx : s.txn = none) (hdir : s.eng.catalog.dataDir.isSome = true)
    {x : DbError} (hr : checkpoint H s = (.error x, s')) :
    ∃ stop : Stop, stop.live ∧ Stopped H s stop s' := by
  rcases checkpoint_raised_cases hx hdir hr with ⟨done, t, rest, ws, s₁, ht, hd, hx⟩ | ⟨ws, hd⟩
  · exact ⟨.raised done, trivial, Stopped.reading ht hd hx⟩
  · exact ⟨.folded, trivial, Stopped.folded hd⟩

end Stops

/-! ## 2. The writes made before a crash -/

/-- The states between two writes of one table. -/
theorem applyAll_take {f : Fold V} {e e' : Engine V} {k : Nat}
    (hi : e.catalog.tables.get? f.table = some f.info)
    (hdir : e.catalog.dataDir.isSome = true) (h : applyAll (f.writes.take k) e = .ok e') :
    k = 0 ∧ e' = e ∨ k = 1 ∧ e' = e.withFiles (e.disk.parquet.set f.info.tmpPath f.data) ∨
      k = 2 ∧ e' = e.withFiles (f.published e.disk.parquet) ∨
      3 ≤ k ∧ ∃ ps, (∀ p ∈ ps, p ∈ f.stale) ∧ e'.catalog = f.newCatalog e ∧
        e'.disk = (f.cleared e ps).disk := by
  have hfirst : (Write.writeTable f.info.tmpPath f.data).apply e =
      .ok (e.withFiles (e.disk.parquet.set f.info.tmpPath f.data)) := rfl
  have hclear : (Write.clear f.table).apply (f.registered e) = .ok (f.cleared e []) := rfl
  have hk : k = 0 ∨ k = 1 ∨ k = 2 ∨ k = 3 ∨ ∃ j, k = j + 4 := by
    by_cases h4 : 4 ≤ k
    · exact Or.inr (Or.inr (Or.inr (Or.inr ⟨k - 4, by omega⟩)))
    · omega
  rcases hk with rfl | rfl | rfl | rfl | ⟨j, rfl⟩
  · cases h
    exact Or.inl ⟨rfl, rfl⟩
  · cases h
    exact Or.inr (Or.inl ⟨rfl, rfl⟩)
  · simp only [Fold.writes, List.cons_append, List.nil_append, List.take_succ_cons, List.take_zero,
      applyAll, List.foldlM_cons, List.foldlM_nil, hfirst, bind, Except.bind,
      Fold.apply_replace] at h
    cases h
    exact Or.inr (Or.inr (Or.inl ⟨rfl, rfl⟩))
  · simp only [Fold.writes, List.cons_append, List.nil_append, List.take_succ_cons, List.take_zero,
      applyAll, List.foldlM_cons, List.foldlM_nil, hfirst, bind, Except.bind,
      Fold.apply_replace, Fold.apply_register hi hdir] at h
    cases h
    exact Or.inr (Or.inr (Or.inr ⟨le_refl _, [], by simp, rfl, rfl⟩))
  · simp only [Fold.writes, List.cons_append, List.nil_append, List.take_succ_cons, applyAll,
      List.foldlM_cons, hfirst, bind, Except.bind, Fold.apply_replace,
      Fold.apply_register hi hdir, hclear] at h
    refine Or.inr (Or.inr (Or.inr ⟨by omega, f.stale.take j, fun p hp => List.mem_of_mem_take hp,
      ?_⟩))
    have hremove := Fold.applyAll_remove (f.stale.take j) (f.cleared e [])
    by_cases hj : j ≤ f.stale.length
    · rw [List.take_append_of_le_length (by simpa using hj), ← List.map_take] at h
      rw [applyAll] at hremove
      rw [hremove] at h
      cases h
      exact ⟨rfl, rfl⟩
    · have hall : (f.stale.map (Write.remove : Path → Write V) ++
          [Write.dropCache f.table]).take j =
            f.stale.map Write.remove ++ [Write.dropCache f.table] :=
        List.take_of_length_le (by simp; omega)
      have hstale : f.stale.take j = f.stale := List.take_of_length_le (by omega)
      rw [hstale] at hremove ⊢
      rw [applyAll] at hremove
      rw [hall, List.foldlM_append, hremove] at h
      cases h
      exact ⟨rfl, rfl⟩

/-! ## 3. The log over a base that holds it -/

section Refold

variable [DecidableEq V] {H : Host V} {e₀ e : Engine V} {t : String}

/-- Every row the delta shows has a key that a tombstone of the delta names. -/
def Absorbed (e : Engine V) (t : String) : Prop := ∀ i, e.catalog.tables.get? t = some i →
  ∀ y ∈ seen e none t, y.1 ≠ 0 →
    Named (tombPairs (keyCols i) false (e.delta.tombstonesWithTs t))
      (tombPairs (keyCols i) true (e.delta.tombstonesWithTs t)) (keyOf (keyCols i) y.2)

omit [DecidableEq V] in
theorem tombPairs_pos (h : DeltaOk e) (key : List String) (fl : Bool) :
    ∀ p ∈ tombPairs key fl (e.delta.tombstonesWithTs t), 1 ≤ p.2 := by
  intro p hp
  obtain ⟨b, hb, hp⟩ := List.mem_flatMap.mp hp
  obtain ⟨k, -, rfl⟩ := List.mem_map.mp hp
  exact (h.tomb t b (List.mem_of_mem_filter hb)).1.1

omit [DecidableEq V] in
theorem tagRows_pos (h : DeltaOk e) : ∀ y ∈ tagRows (e.delta.batchesWithTs t), 1 ≤ y.1 := by
  intro y hy
  obtain ⟨b, hb, hy⟩ := List.mem_flatMap.mp hy
  obtain ⟨r, -, rfl⟩ := List.mem_map.mp hy
  exact (h.ins t b hb).1.1

/-- **An absorbed delta reads the same over its own fold.** -/
theorem look_refold (hok : EngineOk e₀) {i i' : TableInfo V}
    (hi : e₀.catalog.tables.get? t = some i) (hi' : e.catalog.tables.get? t = some i')
    (hpk : i'.constraints.primaryKey = i.constraints.primaryKey) (hcols : i'.columns = i.columns)
    {b : Frame V} (hscan : e.disk.parquet.scan i'.paths none = .ok b)
    (hbc : b.columns = i.columns) (hrows : b.rows = (seen e₀ none t).map Prod.snd)
    (habs : Absorbed e₀ t) :
    look { e with delta := e₀.delta } none t none = look e₀ none t none := by
  obtain ⟨f₀, hf₀, hf₀c, hf₀r⟩ := look_seen hok (x := none) (by intro y hy; cases hy) hi
  have hent := hok.entries (x := none) (by intro y hy; cases hy) t
  have hent' : EntriesOk e.catalog t (e₀.delta.batchesWithTs t) (e₀.delta.tombstonesWithTs t) := by
    constructor
    · intro y hy
      refine ⟨(hent.ins y hy).1, (hent.ins y hy).2.retable fun j hj => ?_⟩
      rw [hi] at hj
      cases hj
      exact ⟨i', hi', hcols⟩
    · intro y hy
      refine (hent.tomb y hy).retable fun j hj => ?_
      rw [hi] at hj
      cases hj
      exact ⟨i', hi', hcols, hpk⟩
  obtain ⟨f, hf, hfc, hfr⟩ := mergePure_seen hi' (hbc.trans hcols.symm) hent'
  have hkey : keyCols i' = keyCols i := by rw [keyCols, keyCols, hpk]
  have hseen : seen e₀ none t = seenOf (keyCols i) (baseRows e₀ i) (e₀.delta.batchesWithTs t)
      (e₀.delta.tombstonesWithTs t) := by
    rw [seen, hi]
    rfl
  have hagain : seenOf (keyCols i) b.rows (e₀.delta.batchesWithTs t)
      (e₀.delta.tombstonesWithTs t) = seen e₀ none t := by
    rw [hrows, hseen]
    refine collapse_refold (baseRows e₀ i) (tombPairs_pos hok.delta _ _)
      (tombPairs_pos hok.delta _ _) fun y hy => ?_
    have hpos := tagRows_pos hok.delta y (List.mem_of_mem_filter hy)
    refine habs i hi y ?_ (by omega)
    rw [hseen, seenOf, collapse, List.filter_append]
    exact List.mem_append_right _ hy
  have hframe : f = f₀ :=
    Frame.ext (by rw [hfc, hf₀c, hcols]) (by rw [hfr, hkey, hagain, hf₀r])
  have hi₂ : ({ e with delta := e₀.delta } : Engine V).catalog.tables.get? t = some i' := hi'
  rw [look_none, lookBase_ok hi₂, hf₀, ← hframe]
  change (e.disk.parquet.scan i'.paths none >>= _) = _
  rw [hscan]
  exact hf

/-- A table in the middle of a checkpoint: untouched, or rebased and absorbed. -/
inductive Survives (e₀ e : Engine V) (t : String) (i i' : TableInfo V) : Prop
  | kept (hpaths : i'.paths = i.paths)
      (hfiles : ∀ p ∈ i.paths, e.disk.parquet.get? p = e₀.disk.parquet.get? p) :
      Survives e₀ e t i i'
  | rebased {b : Frame V} (habs : Absorbed e₀ t)
      (hscan : e.disk.parquet.scan i'.paths none = .ok b) (hcols : b.columns = i.columns)
      (hrows : b.rows = (seen e₀ none t).map Prod.snd) : Survives e₀ e t i i'

/-- The disk of `e` holds the tables of `e₀`, some of them rebased, and still the whole log. -/
structure Surviving (e₀ e : Engine V) : Prop where
  wal : e.disk.wal = e₀.disk.wal
  dataDir : e.catalog.dataDir = e₀.catalog.dataDir
  saved : Saved e
  entry : ∀ t i, e₀.catalog.tables.get? t = some i → ∃ i', e.catalog.tables.get? t = some i' ∧
    i'.columns = i.columns ∧ i'.constraints.primaryKey = i.constraints.primaryKey ∧
      Survives e₀ e t i i'
  only : ∀ t, e₀.catalog.tables.get? t = none → e.catalog.tables.get? t = none

theorem Surviving.readable (h : Surviving e₀ e) (hr : Readable e₀) : Readable e := by
  intro t i' hi'
  cases hi : e₀.catalog.tables.get? t with
  | none =>
    rw [h.only t hi] at hi'
    cases hi'
  | some i =>
    obtain ⟨j, hj, -, -, hsurv⟩ := h.entry t i hi
    rw [hi'] at hj
    cases hj
    cases hsurv with
    | kept hpaths hfiles =>
      obtain ⟨f, fs, hread⟩ := hr t i hi
      exact ⟨f, fs, by rw [hpaths, Files.readAll_congr hfiles]; exact hread⟩
    | rebased _ hscan _ _ => exact Files.readAll_of_scan hscan

/-- **A restart on a surviving disk shows the rows from before.** -/
theorem Surviving.restart (h : Surviving e₀ e) (hh : Healthy H e₀) (hok : EngineOk e₀)
    {i : TableInfo V} (hi : e₀.catalog.tables.get? t = some i) :
    visible (start H e.catalog.dataDir e.disk) t = visible e₀ t := by
  obtain ⟨log, hl⟩ := hh.logged
  obtain ⟨i', hi', hcols, hpk, hsurv⟩ := h.entry t i hi
  have hen : e.catalog.dataDir.isSome = true := by rw [h.dataDir]; exact hl.enabled
  have hdelta : DeltaStore.Same (start H e.catalog.dataDir e.disk).delta e₀.delta := by
    obtain ⟨hd, -⟩ := start_encodes (d := e.disk) hen hl.file nextRecord_nil
      (by rw [h.wal, List.append_nil])
    rw [hd]
    exact hl.same
  have hk : i'.constraints.primaryKey ≠ some [] ∨ e₀.delta.tombstonesWithTs t = [] := by
    cases ht : e₀.delta.tombstonesWithTs t with
    | nil => exact Or.inr rfl
    | cons b l =>
      left
      obtain ⟨-, j, p, hj, hp, hne, -⟩ := hok.delta.tomb t b (by rw [ht]; exact List.mem_cons_self)
      rw [hi] at hj
      cases hj
      rw [hpk, hp]
      intro h
      cases h
      exact hne rfl
  rw [visible_eq (World.start_coherent H _ _), visible_eq hh.coherent,
    start_look h.saved hen (h.readable hh.readable) hdelta hi' hk]
  congr 1
  cases hsurv with
  | kept hpaths hfiles =>
    have hi₂ : ({ e with delta := e₀.delta } : Engine V).catalog.tables.get? t = some i' := hi'
    have hprim : primaryKeyOf e.catalog t = primaryKeyOf e₀.catalog t := by
      rw [primaryKeyOf, primaryKeyOf, get_eq_ok.mpr hi, get_eq_ok.mpr hi']
      simp only [hpk]
    rw [look_none, look_none, lookBase_ok hi₂, lookBase_ok hi, hpaths]
    change (e.disk.parquet.scan i.paths none >>= _) = _
    rw [Files.scan_congr none hfiles]
    simp only [insertEntries, tombEntries, mergePure, hprim]
    rfl
  | rebased habs hscan hbc hrows => exact look_refold hok hi hi' hpk hcols hscan hbc hrows habs

/-! ## 4. The disk at every stop -/

omit [DecidableEq V] in
/-- Registering over an entry keeps its declared key. -/
theorem inherited_primaryKey (i : TableInfo V) (required : List String) :
    (Catalog.inherited (some i) required).primaryKey = i.constraints.primaryKey := rfl

/-- The new base of a table holds the rows it showed. -/
theorem foldPure_rows (hok : EngineOk e₀) {f : Fold V} (hf : foldPure e₀ t = .ok f) :
    f.data.frame.columns = f.info.columns ∧
      f.data.frame.rows = (seen e₀ none t).map Prod.snd := by
  obtain ⟨-, hi, hlook, -⟩ := foldPure_ok hf
  obtain ⟨g, hg, hgc, hgr⟩ := look_seen hok (x := none) (by intro y hy; cases hy) hi
  rw [hlook] at hg
  cases hg
  exact ⟨hgc, hgr⟩

theorem Folded.surviving {ts : List String} (h : Folded e₀ ts e) (hok : EngineOk e₀)
    (habs : ∀ u ∈ ts, Absorbed e₀ u) : Surviving e₀ e where
  wal := h.wal
  dataDir := h.dataDir
  saved := h.saved
  entry := by
    intro u i hi
    by_cases hu : u ∈ ts
    · obtain ⟨⟨f, hf⟩, -⟩ := h.done u hu
      have hbefore := hf.before
      rw [hi] at hbefore
      cases hbefore
      obtain ⟨g, hg, hgc, hgr⟩ := look_seen hok (x := none) (by intro y hy; cases hy) hi
      rw [hf.rows] at hg
      cases hg
      refine ⟨f.entry, hf.entry, ?_, inherited_primaryKey _ _,
        Survives.rebased (habs u hu) (Files.scan_singleton hf.file) hgc hgr⟩
      change f.data.schema.names = _
      rw [hf.schema, TableInfo.columns]
    · exact ⟨i, (h.entry u hu).trans hi, rfl, rfl, Survives.kept rfl (h.files u i hu hi)⟩
  only := by
    intro u hu
    by_cases hmem : u ∈ ts
    · obtain ⟨⟨f, hf⟩, -⟩ := h.done u hmem
      have hbefore := hf.before
      rw [hu] at hbefore
      cases hbefore
    · exact (h.entry u hmem).trans hu

omit [DecidableEq V] in
/-- Files no table has do not matter. -/
theorem Surviving.withFiles [DecidableEq V] (h : Surviving e₀ e) {d : Files V}
    (hd : ∀ u j, e.catalog.tables.get? u = some j → ∀ p ∈ j.paths,
      d.get? p = e.disk.parquet.get? p) : Surviving e₀ (e.withFiles d) where
  wal := h.wal
  dataDir := h.dataDir
  saved := h.saved
  entry := by
    intro u i hi
    obtain ⟨i', hi', hcols, hpk, hsurv⟩ := h.entry u i hi
    refine ⟨i', hi', hcols, hpk, ?_⟩
    cases hsurv with
    | kept hpaths hfiles =>
      refine Survives.kept hpaths fun p hp => ?_
      exact (hd u i' hi' p (by rw [hpaths]; exact hp)).trans (hfiles p hp)
    | rebased habs hscan hbc hrows =>
      refine Survives.rebased habs ?_ hbc hrows
      change d.scan i'.paths none = _
      rw [Files.scan_congr none (hd u i' hi')]
      exact hscan
  only := h.only

/-- One more table rebased. -/
theorem Surviving.rebase {f : Fold V} {e' : Engine V} (h : Surviving e₀ e) (hok : EngineOk e₀)
    (hf : foldPure e₀ t = .ok f) (habs : Absorbed e₀ t) (hwal : e'.disk.wal = e.disk.wal)
    (hdir : e'.catalog.dataDir = e.catalog.dataDir) (hsaved : Saved e')
    (hother : ∀ v, v ≠ t → e'.catalog.tables.get? v = e.catalog.tables.get? v)
    (hfiles : ∀ v j, v ≠ t → e.catalog.tables.get? v = some j → ∀ p ∈ j.paths,
      e'.disk.parquet.get? p = e.disk.parquet.get? p) {i' : TableInfo V}
    (hi' : e'.catalog.tables.get? t = some i') (hcols : i'.columns = f.info.columns)
    (hpk : i'.constraints.primaryKey = f.info.constraints.primaryKey)
    (hscan : e'.disk.parquet.scan i'.paths none = .ok f.data.frame) : Surviving e₀ e' where
  wal := hwal.trans h.wal
  dataDir := hdir.trans h.dataDir
  saved := hsaved
  entry := by
    intro v j hj
    by_cases hv : v = t
    · subst hv
      obtain ⟨-, hi, -, -⟩ := foldPure_ok hf
      obtain ⟨hbc, hrows⟩ := foldPure_rows hok hf
      rw [hj] at hi
      cases hi
      exact ⟨i', hi', hcols, hpk, Survives.rebased habs hscan hbc hrows⟩
    · obtain ⟨j', hj', hcols', hpk', hsurv⟩ := h.entry v j hj
      refine ⟨j', (hother v hv).trans hj', hcols', hpk', ?_⟩
      cases hsurv with
      | kept hpaths hsame =>
        refine Survives.kept hpaths fun p hp => ?_
        exact (hfiles v j' hv hj' p (by rw [hpaths]; exact hp)).trans (hsame p hp)
      | rebased habs' hscan' hbc' hrows' =>
        refine Survives.rebased habs' ?_ hbc' hrows'
        rw [Files.scan_congr none (hfiles v j' hv hj')]
        exact hscan'
  only := by
    intro v hv
    obtain ⟨-, hi, -, -⟩ := foldPure_ok hf
    have hne : v ≠ t := by
      rintro rfl
      rw [hi] at hv
      cases hv
    exact (hother v hne).trans (h.only v hv)

/-- The temporary name of a dirty table is none of its own files. -/
def Apart (e : Engine V) : Prop := ∀ u i, e.catalog.tables.get? u = some i →
  e.delta.hasUnflushed u = true → i.tmpPath ∉ i.paths

/-- What a restart after the stop asks of the tables: those that were rebased, in memory or under
their old entry, are absorbed. -/
def Spares (e : Engine V) : Stop → Prop
  | .raised done => ∀ u ∈ done, Absorbed e u
  | .crashed done t k => (∀ u ∈ done, Absorbed e u) ∧ (3 ≤ k → Absorbed e t) ∧
      (k = 2 → ∀ i, e.catalog.tables.get? t = some i → i.basePath ∈ i.paths →
        i.paths = [i.basePath] ∧ Absorbed e t)
  | .folded => ∀ u, e.delta.hasUnflushed u = true → Absorbed e u
  | .truncated => True

end Refold

section Stops

variable [DecidableEq V] {H : Host V} {s s₁ s₂ s' : Session V} {done rest : List String}
  {t : String} {ws : List (Option (String × Nat))}

omit [DecidableEq V] in
/-- The tables folded before a stop, and the next one. -/
theorem targets_split (ht : H.setOrder s.eng.delta.tableNames = done ++ t :: rest) :
    t ∉ done ∧ s.eng.delta.hasUnflushed t = true ∧
      (∀ v ∈ done, s.eng.delta.hasUnflushed v = true) ∧ done.Nodup := by
  have hnd := H.nodup_setOrder s.eng.delta.tableNames
  rw [ht] at hnd
  have hmem : ∀ v ∈ done ++ t :: rest, s.eng.delta.hasUnflushed v = true := by
    intro v hv
    rw [← ht] at hv
    exact mem_targets.mp hv
  refine ⟨fun hmem => (List.nodup_append.mp hnd).2.2 t hmem t List.mem_cons_self rfl,
    hmem t (by simp), fun v hv => hmem v (List.mem_append_left _ hv), (List.nodup_append.mp hnd).1⟩

/-- The loop up to a stop. -/
theorem folding_done (hh : Housed s.eng) (hx : s.txn = none) (hsep : Separate s.eng)
    (hd : ∀ v ∈ done, s.eng.delta.hasUnflushed v = true) (hnd : done.Nodup)
    (hr : Proc.collect foldTable done s = (.ok ws, s₁)) : Folding s done s₁ := by
  have h0 : Folding s [] s := ⟨Folded.nil hh.saved hh.coherent, rfl, rfl, id⟩
  exact h0.collect hx hh.dataDir hsep hd hnd hr

/-- **Whatever becomes of a checkpoint, some tables are folded** and the others are as before. -/
theorem checkpoint_folded (hh : Housed s.eng) (hx : s.txn = none) (hsep : Separate s.eng) :
    ∃ ts e, Folded s.eng ts e ∧
      ((checkpoint H s).2.eng = e ∨ (checkpoint H s).2.eng = sealed e s.eng.commitTs) := by
  rcases hr : checkpoint H s with ⟨r, s'⟩
  cases r with
  | ok written =>
    rcases checkpoint_ok hh.saved hh.coherent hsep hr with ⟨-, rfl⟩ | ⟨s₁, hf, rfl⟩
    · exact ⟨[], _, Folded.nil hh.saved hh.coherent, Or.inl rfl⟩
    · exact ⟨_, s₁.eng, hf.folded, Or.inr rfl⟩
  | error x =>
    rcases checkpoint_raised_cases hx hh.dataDir hr with ⟨done, t, rest, ws, s₁, ht, hd, hfail⟩ | ⟨ws, hd⟩
    · obtain ⟨htd, htu, hdd, hnd⟩ := targets_split ht
      have hf := (folding_done hh hx hsep hdd hnd hd).failed hx hh.dataDir htd htu hfail
      exact ⟨done, s'.eng, hf.folded, Or.inl rfl⟩
    · have hf := folding_done hh hx hsep (fun v hv => mem_targets.mp hv) (H.nodup_setOrder _) hd
      exact ⟨_, s'.eng, hf.folded, Or.inl rfl⟩

/-- The files of no table are the temporary file of the next one. -/
theorem Folded.tmpPath_untouched {e₀ e : Engine V} {ts : List String} (h : Folded e₀ ts e)
    (hsep : Separate e₀) (hap : Apart e₀) (hd : ∀ v ∈ ts, e₀.delta.hasUnflushed v = true)
    (htd : t ∉ ts) (ht : e₀.delta.hasUnflushed t = true) {i : TableInfo V}
    (hi : e₀.catalog.tables.get? t = some i) : ∀ u j, e.catalog.tables.get? u = some j →
      ∀ p ∈ j.paths, p ≠ i.tmpPath := by
  intro u j hj p hp
  by_cases hu : u = t
  · subst hu
    rw [h.entry u htd, hi] at hj
    cases hj
    exact fun heq => hap u i hi ht (heq ▸ hp)
  · exact (h.untouched hsep hd hi ht hu hj p hp).2.2

/-- **The disk between two writes of a table.** -/
theorem Folded.surviving_take {e₀ e e' : Engine V} {ts : List String} {f : Fold V} {k : Nat}
    (h : Folded e₀ ts e) (hok : EngineOk e₀) (hh : Healthy H e₀) (hsep : Separate e₀)
    (hap : Apart e₀) (hd : ∀ v ∈ ts, e₀.delta.hasUnflushed v = true) (htd : t ∉ ts)
    (ht : e₀.delta.hasUnflushed t = true) (hf : foldPure e₀ t = .ok f)
    (hsp : Spares e₀ (.crashed ts t k)) (he : applyAll (f.writes.take k) e = .ok e') :
    Surviving e₀ e' := by
  obtain ⟨hft, hit, -, hschema⟩ := foldPure_ok hf
  obtain ⟨habs, hlate, hpub⟩ := hsp
  have hsurv := h.surviving hok habs
  have hout := h.tmpPath_untouched hsep hap hd htd ht hit
  have hother : ∀ v j, v ≠ t → e.catalog.tables.get? v = some j → ∀ p ∈ j.paths,
      p ∉ f.info.paths ∧ p ≠ f.info.basePath ∧ p ≠ f.info.tmpPath :=
    fun v j hv hj => h.untouched hsep hd hit ht hv hj
  have hentry : e.catalog.tables.get? t = some f.info := (h.entry t htd).trans hit
  have hcases := applyAll_take (by rw [hft]; exact hentry)
    (by rw [h.dataDir]; exact hh.dataDir) he
  rcases hcases with ⟨rfl, rfl⟩ | ⟨rfl, rfl⟩ | ⟨rfl, rfl⟩ | ⟨hk, ps, hps, hcat, hdisk⟩
  · exact hsurv
  · refine hsurv.withFiles fun v j hj p hp => ?_
    rw [Dict.get?_set, if_neg (hout v j hj p hp)]
  · -- published under the old entry: it matters when the old entry has the new name
    by_cases hmem : f.info.basePath ∈ f.info.paths
    · obtain ⟨hpaths, habst⟩ := hpub rfl f.info hit hmem
      refine hsurv.rebase hok hf habst rfl rfl h.saved (fun v _ => rfl) ?_ hentry rfl rfl ?_
      · intro v j hv hj p hp
        obtain ⟨-, hb, htmp⟩ := hother v j hv hj p hp
        exact Fold.get?_published_other _ _ hb htmp
      · rw [hpaths]
        refine Files.scan_singleton ?_
        change (f.published e.disk.parquet).get? _ = _
        rw [Fold.get?_published, if_pos rfl]
    · refine hsurv.withFiles fun v j hj p hp => ?_
      by_cases hv : v = t
      · subst hv
        rw [hentry] at hj
        cases hj
        exact Fold.get?_published_other _ _ (fun heq => hmem (heq ▸ hp)) (hout v _ hentry p hp)
      · obtain ⟨-, hb, htmp⟩ := hother v j hv hj p hp
        exact Fold.get?_published_other _ _ hb htmp
  · have hstale : ∀ p ∈ ps, p ∈ f.info.paths := fun p hp => Fold.mem_stale p (hps p hp)
    have hget : ∀ v, e'.catalog.tables.get? v =
        if v = t then some f.entry else e.catalog.tables.get? v := by
      intro v
      rw [hcat, ← hft]
      exact Dict.get?_set _ _ _ _
    refine hsurv.rebase hok hf (hlate hk) (by rw [hdisk]; rfl) (by rw [hcat]; rfl) ?_
      (fun v hv => by rw [hget, if_neg hv]) ?_ ((hget t).trans (if_pos rfl)) ?_
      (inherited_primaryKey _ _) ?_
    · rw [Saved, hdisk, hcat]
      rfl
    · intro v j hv hj p hp
      obtain ⟨hp', hb, htmp⟩ := hother v j hv hj p hp
      rw [hdisk]
      exact Fold.get?_cleared hp' hb htmp hstale
    · change f.data.schema.names = _
      rw [hschema, TableInfo.columns]
    · rw [hdisk]
      exact Files.scan_singleton (Fold.get?_cleared_base fun hmem =>
        Fold.basePath_notMem_stale (hps _ hmem))

/-- **The engine that goes on shows what it showed.** -/
theorem Stopped.visible_eq {stop : Stop} (hs : Stopped H s stop s') (hlive : stop.live)
    (hx : s.txn = none) (hh : Healthy H s.eng) (hsep : Separate s.eng) (hap : Apart s.eng)
    {u : String} {i : TableInfo V} (hi : s.eng.catalog.tables.get? u = some i) :
    visible s'.eng u = visible s.eng u := by
  cases hs with
  | @reading done rest t ws s₁ s₂ x ht hd hfail =>
    obtain ⟨htd, htu, hdd, hnd⟩ := targets_split ht
    have hf := (folding_done hh.housed hx hsep hdd hnd hd).failed hx hh.dataDir htd htu hfail
    rw [Engine.visible_eq hf.folded.coherent, Engine.visible_eq hh.coherent, hf.folded.look_eq hi]
  | @writing done rest t ws s₁ s₂ f ht hd hf left =>
    obtain ⟨htd, htu, hdd, hnd⟩ := targets_split ht
    obtain ⟨hf', hpure⟩ := (folding_done hh.housed hx hsep hdd hnd hd).read hx htd hf
    obtain ⟨-, hit, -, -⟩ := foldPure_ok hpure
    have hout := hf'.folded.tmpPath_untouched hsep hap hdd htd htu hit
    have hsame : ∀ v j, s₂.eng.catalog.tables.get? v = some j → ∀ p ∈ j.paths,
        (torn f.info.tmpPath left s₂.eng.disk.parquet).get? p = s₂.eng.disk.parquet.get? p :=
      fun v j hj p hp => get?_torn left _ (hout v j hj p hp)
    have hco : Coherent (s₂.eng.withFiles (torn f.info.tmpPath left s₂.eng.disk.parquet)) :=
      hf'.folded.coherent.retable fun v cols b hb =>
        ⟨hb, fun j hj => ⟨j, hj, rfl, hsame v j hj⟩⟩
    have hentry : ∃ j, s₂.eng.catalog.tables.get? u = some j := by
      by_cases hu : u ∈ done
      · obtain ⟨⟨g, hg⟩, -⟩ := hf'.folded.done u hu
        exact ⟨_, hg.entry⟩
      · exact ⟨i, (hf'.folded.entry u hu).trans hi⟩
    obtain ⟨j, hj⟩ := hentry
    have hj' : (s₂.eng.withFiles
        (torn f.info.tmpPath left s₂.eng.disk.parquet)).catalog.tables.get? u = some j := hj
    have hlook := look_eq_of hj hj' (hsame u j hj) rfl rfl
    rw [Engine.visible_eq hco, Engine.visible_eq hh.coherent, hlook, hf'.folded.look_eq hi]
  | crash ht hd hf he => exact hlive.elim
  | folded hd =>
    have hf := folding_done hh.housed hx hsep (fun v hv => mem_targets.mp hv) (H.nodup_setOrder _) hd
    rw [Engine.visible_eq hf.folded.coherent, Engine.visible_eq hh.coherent, hf.folded.look_eq hi]
  | truncated hd htr => exact hlive.elim

/-- **A restart shows what was shown**, if the rebased tables are absorbed. -/
theorem Stopped.restart {stop : Stop} (hs : Stopped H s stop s') (hx : s.txn = none)
    (hh : Healthy H s.eng) (hok : EngineOk s.eng) (hsep : Separate s.eng) (hap : Apart s.eng)
    (hsp : Spares s.eng stop) {u : String} {i : TableInfo V}
    (hi : s.eng.catalog.tables.get? u = some i) :
    visible (start H s'.eng.catalog.dataDir s'.eng.disk) u = visible s.eng u := by
  cases hs with
  | @reading done rest t ws s₁ s₂ x ht hd hfail =>
    obtain ⟨htd, htu, hdd, hnd⟩ := targets_split ht
    have hf := (folding_done hh.housed hx hsep hdd hnd hd).failed hx hh.dataDir htd htu hfail
    exact (hf.folded.surviving hok hsp).restart hh hok hi
  | @writing done rest t ws s₁ s₂ f ht hd hf left =>
    obtain ⟨htd, htu, hdd, hnd⟩ := targets_split ht
    obtain ⟨hf', hpure⟩ := (folding_done hh.housed hx hsep hdd hnd hd).read hx htd hf
    obtain ⟨-, hit, -, -⟩ := foldPure_ok hpure
    have hout := hf'.folded.tmpPath_untouched hsep hap hdd htd htu hit
    refine ((hf'.folded.surviving hok hsp).withFiles fun v j hj p hp => ?_).restart hh hok hi
    exact get?_torn left _ (hout v j hj p hp)
  | @crash done rest t ws s₁ s₂ f k e ht hd hf he =>
    obtain ⟨htd, htu, hdd, hnd⟩ := targets_split ht
    obtain ⟨hf', hpure⟩ := (folding_done hh.housed hx hsep hdd hnd hd).read hx htd hf
    have hsurv := hf'.folded.surviving_take hok hh hsep hap hdd htd htu hpure hsp he
    exact hsurv.restart hh hok hi
  | folded hd =>
    have hf := folding_done hh.housed hx hsep (fun v hv => mem_targets.mp hv) (H.nodup_setOrder _) hd
    exact (hf.folded.surviving hok fun v hv => hsp v (mem_targets.mp hv)).restart hh hok hi
  | @truncated ws s₁ s₂ hd htr =>
    have hf := folding_done hh.housed hx hsep (fun v hv => mem_targets.mp hv) (H.nodup_setOrder _) hd
    have hw : s₁.eng.walEnabled = true := by
      rw [walEnabled, hf.folded.dataDir]
      exact hh.dataDir
    rcases walTruncate_zero hw with hok' | ⟨herr, -⟩
    · rw [hok'] at htr
      cases htr
      have hall : ∀ t, s.eng.delta.hasUnflushed t = true →
          t ∈ H.setOrder s.eng.delta.tableNames := fun t ht => mem_targets.mpr ht
      -- start-up reads the disk only, so the snapshots that are still there do not matter
      have hh' := hf.folded.healthy hall hh s.eng.commitTs
      obtain ⟨j, hj⟩ : ∃ j, s₁.eng.catalog.tables.get? u = some j := by
        by_cases hu : u ∈ H.setOrder s.eng.delta.tableNames
        · obtain ⟨⟨g, hg⟩, -⟩ := hf.folded.done u hu
          exact ⟨_, hg.entry⟩
        · exact ⟨i, (hf.folded.entry u hu).trans hi⟩
      have hrestart := hh'.restart (t := u) hj (Or.inr (hf.folded.empty hall u).2)
      rw [Engine.visible_eq hh'.coherent] at hrestart
      rw [Engine.visible_eq hh.coherent, ← hf.folded.look_eq hi]
      exact hrestart
    · rw [herr] at htr
      cases htr

end Stops

end Engine

/-! ## 5. Runs -/

namespace World

open Engine

/-- **An interrupted checkpoint changes nothing that is shown.**  In every world reached from a data
directory by careful and orderly acts, a checkpoint that stops at any point leaves the running
engine with the rows it showed, and so does a restart, provided that no file is in the way of
another table's fold and the tables that were rebased before the stop are absorbed.  Every state is
plain and its values fit: the log holds the keys of the tombstones, and `_merge_delta` matches these only
where it has not written over them; and a value that the schema changes is in the log as it was. -/
theorem checkpoint_interrupted [DecidableEq V] (H : Host V) (M : Merger V) (dir : String)
    (files : Files V) {acts : List (Act V)} (hacts : Run.Along (World.act H)
      (fun w a => (Careful w a ∧ Orderly w a) ∧ (w.act H a).Plain M ∧ (w.act H a).eng.Storable M)
      (World.init H (some dir) ⟨files, none, none⟩) acts) {w : World V}
    (hw : w = Run.run (World.act H) (World.init H (some dir) ⟨files, none, none⟩) acts)
    (hsep : Separate w.eng) (hap : Apart w.eng) {q : Faults} {stop : Stop} {s' : Session V}
    (hs : Stopped H ⟨w.eng, none, q⟩ stop s') (hsp : Engine.Spares w.eng stop) {t : String}
    {i : TableInfo V} (hi : w.eng.catalog.tables.get? t = some i) :
    (stop.live → visible s'.eng t = visible w.eng t) ∧
      visible (start H s'.eng.catalog.dataDir s'.eng.disk) t = visible w.eng t := by
  have h : Upright H w := by
    rw [hw]
    exact upright_run H dir files (hacts.mono fun _ _ ha => ha.1)
  exact ⟨fun hlive => hs.visible_eq hlive rfl h.healthy hsep hap hi,
    hs.restart rfl h.healthy h.sound.ok hsep hap hsp hi⟩

/-- The session of a checkpoint after one upload and an insert into it. -/
def oneUploadSession : Session Nat := ⟨oneUpload.eng, none, {}⟩

/-- **An insert is repeated.**  The process dies between the last write of the only table and the
truncation of the log; the restart reads the insert from the new base and from the log. -/
theorem crash_repeats_insert : ∃ s', Stopped natHost oneUploadSession .folded s' ∧
    ¬ ∃ before after, visible oneUpload.eng "a" = .ok before ∧
      visible (start natHost s'.eng.catalog.dataDir s'.eng.disk) "a" = .ok after ∧
        after.Perm before := by
  have hok : (Proc.collect foldTable (natHost.setOrder oneUploadSession.eng.delta.tableNames)
      oneUploadSession).1.toBool = true := by decide +kernel
  obtain ⟨ws, hws⟩ := exists_of_toBool hok
  refine ⟨_, Stopped.folded (Prod.ext hws rfl), ?_⟩
  have hb : column (visible oneUpload.eng "a") = .ok [some 1] := by decide +kernel
  have ha : column (visible (start natHost (Proc.collect foldTable (natHost.setOrder
      oneUploadSession.eng.delta.tableNames) oneUploadSession).2.eng.catalog.dataDir
      (Proc.collect foldTable (natHost.setOrder
        oneUploadSession.eng.delta.tableNames) oneUploadSession).2.eng.disk) "a") =
      .ok [some 1, some 1] := by decide +kernel
  exact not_perm_of_column hb ha (by decide)

/-- One upload of the rows 1 and 2, its key, and a delete. -/
def deleteActs : List (Act Nat) :=
  [.upload "a" ⟨"d/uploads", "1.parquet"⟩ (some (keyParquet [1, 2])),
    .admin (.alter "a" (.pk ["k"])) {}, .conn (.sql 0 (deleteKey "a" 1) {})]

/-- The world after them. -/
@[irreducible] def oneDelete : World Nat := fresh deleteActs

theorem oneDelete_eq : oneDelete = Run.run (World.act natHost)
    (World.init natHost (some "d") ⟨∅, none, none⟩) deleteActs := by
  unfold oneDelete fresh
  rfl

/-- The session of a checkpoint after them. -/
def oneDeleteSession : Session Nat := ⟨oneDelete.eng, none, {}⟩

set_option maxRecDepth 10000 in
/-- Only `a` is registered. -/
theorem oneDelete_only {u : String} {i : TableInfo Nat}
    (hi : oneDelete.eng.catalog.tables.get? u = some i) : u = "a" := by
  have hkeys : oneDelete.eng.catalog.tables.keys = ["a"] := by with_unfolding_all decide
  have hmem := (oneDelete.eng.catalog.tables.mem_keys u).mpr ⟨i, hi⟩
  rw [hkeys] at hmem
  exact List.mem_singleton.mp hmem

set_option maxRecDepth 10000 in
/-- A delta that only deletes shows no row of its own, so it is absorbed. -/
theorem oneDelete_absorbed : Absorbed oneDelete.eng "a" := by
  intro i _ y hy hne
  have hbase : (seen oneDelete.eng none "a").all (fun y => decide (y.1 = 0)) = true := by
    with_unfolding_all decide
  exact absurd (of_decide_eq_true (List.all_eq_true.mp hbase y hy)) hne

set_option maxRecDepth 10000 in
/-- A delete survives the crash that repeats an insert. -/
theorem checkpoint_interrupted_delete :
    ∃ s', Stopped natHost oneDeleteSession .folded s' ∧
      column (visible oneDelete.eng "a") = .ok [some 2] ∧
      visible s'.eng "a" = visible oneDelete.eng "a" ∧
      visible (start natHost s'.eng.catalog.dataDir s'.eng.disk) "a" =
        visible oneDelete.eng "a" := by
  have hok : (Proc.collect foldTable (natHost.setOrder oneDeleteSession.eng.delta.tableNames)
      oneDeleteSession).1.toBool = true := by decide +kernel
  obtain ⟨ws, hws⟩ := exists_of_toBool hok
  have hstop := Stopped.folded (H := natHost) (Prod.ext hws rfl)
  refine ⟨_, hstop, by decide +kernel, ?_⟩
  have hsep : Separate oneDelete.eng := by
    intro u i v j hi _ hj hne
    exact absurd ((oneDelete_only hj).trans (oneDelete_only hi).symm) hne
  have hap : Apart oneDelete.eng := by
    intro u i hi _
    have hall : ((oneDelete.eng.catalog.tables.get? "a").all
        fun i => decide (i.tmpPath ∉ i.paths)) = true := by with_unfolding_all decide
    rw [oneDelete_only hi] at hi
    rw [hi] at hall
    exact of_decide_eq_true hall
  have hsp : Engine.Spares oneDelete.eng .folded := by
    intro u _ i hi
    obtain rfl := oneDelete_only hi
    exact oneDelete_absorbed i hi
  obtain ⟨i, hi⟩ : ∃ i, oneDelete.eng.catalog.tables.get? "a" = some i :=
    (oneDelete.eng.catalog.tables.mem_keys "a").mp (by with_unfolding_all decide)
  have hacts : Run.Along (World.act natHost)
      (fun w a => (Careful w a ∧ Orderly w a) ∧ (w.act natHost a).Plain natMerger ∧
        (w.act natHost a).eng.Storable natMerger)
      (World.init natHost (some "d") ⟨∅, none, none⟩) deleteActs := by
    refine ⟨⟨⟨⟨rfl, fun cols => rfl⟩, rfl, fun c x hx => ?_⟩, World.plain_natMerger ?_, Engine.storable_natMerger _⟩,
      ⟨⟨trivial, fun _ => ⟨?_, fun c x hx => ?_⟩⟩, World.plain_natMerger ?_, Engine.storable_natMerger _⟩,
      ⟨⟨⟨⟨by simp, by simp [deleteKey]⟩, rfl⟩, ?_⟩, World.plain_natMerger ?_, Engine.storable_natMerger _⟩, trivial⟩
    · cases hx
    · decide +kernel
    · decide
    · have hnone : ((World.init natHost (some "d") ⟨∅, none, none⟩).act natHost
          (.upload "a" ⟨"d/uploads", "1.parquet"⟩ (some (keyParquet [1, 2])))).txns.get? c =
            none := rfl
      rw [hnone] at hx
      cases hx
    · decide +kernel
    · intro t ht i hi hpk
      cases ht
      have hkey : (((fresh (deleteActs.take 2)).eng.catalog.tables.get? "a").all
          fun i => decide (i.constraints.primaryKey ≠ some [])) = true := by decide
      have hi' : (fresh (deleteActs.take 2)).eng.catalog.tables.get? "a" = some i := hi
      rw [hi'] at hkey
      exact of_decide_eq_true hkey hpk
    · decide +kernel
  have h := checkpoint_interrupted natHost natMerger "d" ∅ hacts oneDelete_eq hsep hap hstop hsp hi
  exact ⟨h.1 trivial, h.2⟩

end World

end RyuDB
