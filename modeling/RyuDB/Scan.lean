/-
# What a scan returns

`Engine.scan` reads through a cache and can be cancelled in the middle.  `glance` is the same read
without the cancel: the cached base or the files, the delta and the transaction's buffer.
`scan_glances` says that a scan returns what `glance` says or is cancelled, and that it moves nothing
but the cache and the cancel countdown (`Quiet`).  `look` does without the cache too; the two agree
as long as every cached frame is what the files hold (`Coherent`), which is what `scan_reads` asks.

The layers on top of a scan are proved with `Reads x s v`: from `s` the code `x` computes the value
`v` of a pure function, unless it is cancelled, and moves the session quietly.  `Reads` composes along
a `do` block, so a statement is compared with a pure function of the same shape, part by part, and a
cancel is dealt with once, in `checkCancel_reads`.
-/
import RyuDB.Engine

namespace RyuDB.Engine

open Versioned

variable {V : Type}

/-! ## 1. Quiet steps -/

/-- Every cached frame is what the files of its table hold now. -/
def Coherent (e : Engine V) : Prop :=
  ∀ t cols f, e.scanCache.get? (t, cols) = some f →
    ∃ i, e.catalog.tables.get? t = some i ∧ e.disk.parquet.scan i.paths cols = .ok f

/-- The base of a scan, read from the files. -/
def lookBase (e : Engine V) (t : String) (cols : Option (List String)) :
    Except DbError (Frame V) := do
  let i ← e.catalog.get t
  e.disk.parquet.scan i.paths cols

/-- The base of a scan: the cached frame, or the files. -/
def cachedBase (e : Engine V) (t : String) (cols : Option (List String)) :
    Except DbError (Frame V) :=
  match e.scanCache.get? (t, cols) with
  | some f => .ok f
  | none => lookBase e t cols

/-- Every cached frame is what the files hold, and no aggregate of the statement writes into one. -/
structure Pristine (s : Session V) : Prop where
  coherent : Coherent s.eng
  alone : s.faults.writesBack = false

/-- The session moved in its scan cache and its cancel countdown only, and the next scan finds the
same base, unless an aggregate writes into the cached frames. -/
structure Quiet (s s' : Session V) : Prop where
  txn : s'.txn = s.txn
  catalog : s'.eng.catalog = s.eng.catalog
  delta : s'.eng.delta = s.eng.delta
  commitTs : s'.eng.commitTs = s.eng.commitTs
  snapshots : s'.eng.snapshots = s.eng.snapshots
  disk : s'.eng.disk = s.eng.disk
  append : s'.faults.append = s.faults.append
  truncate : s'.faults.truncate = s.faults.truncate
  alone : s'.faults.writesBack = s.faults.writesBack
  calm : s.faults.cancelAfter = none → s'.faults.cancelAfter = none
  coherent : Pristine s → Coherent s'.eng
  bases : s.faults.writesBack = false →
    ∀ t cols, cachedBase s'.eng t cols = cachedBase s.eng t cols

theorem Quiet.refl (s : Session V) : Quiet s s :=
  ⟨rfl, rfl, rfl, rfl, rfl, rfl, rfl, rfl, rfl, id, Pristine.coherent, fun _ _ _ => rfl⟩

theorem Quiet.pristine {s s' : Session V} (h : Quiet s s') (hc : Pristine s) : Pristine s' :=
  ⟨h.coherent hc, h.alone.trans hc.alone⟩

theorem Quiet.trans (a b c : Session V) (h : Quiet a b) (h' : Quiet b c) : Quiet a c where
  txn := h'.txn.trans h.txn
  catalog := h'.catalog.trans h.catalog
  delta := h'.delta.trans h.delta
  commitTs := h'.commitTs.trans h.commitTs
  snapshots := h'.snapshots.trans h.snapshots
  disk := h'.disk.trans h.disk
  append := h'.append.trans h.append
  truncate := h'.truncate.trans h.truncate
  calm := fun h0 => h'.calm (h.calm h0)
  alone := h'.alone.trans h.alone
  coherent := fun h0 => h'.coherent (h.pristine h0)
  bases := fun h0 t cols => (h'.bases (h.alone.trans h0) t cols).trans (h.bases h0 t cols)

/-- The outcome is `x`, or the cancel event was seen. -/
def OrCancelled {α : Type} (s : Session V) (r x : Except DbError α) : Prop :=
  r = x ∨ (r = .error .cancelledByUser ∧ s.faults.cancelAfter ≠ none)

theorem OrCancelled.calm {α : Type} {s : Session V} {r x : Except DbError α}
    (h : OrCancelled s r x) (hc : s.faults.cancelAfter = none) : r = x :=
  h.resolve_right fun h' => h'.2 hc

/-- From `s` the code `x` computes `v` quietly, unless it is cancelled. -/
structure Reads {α : Type} (x : Op V α) (s : Session V) (v : Except DbError α) : Prop where
  quiet : Quiet s (x s).2
  value : OrCancelled s (x s).1 v

namespace Reads

variable {α β : Type} {s : Session V}

theorem pure (a : α) : Reads (Pure.pure a : Op V α) s (.ok a) := ⟨Quiet.refl s, Or.inl rfl⟩

theorem lift (v : Except DbError α) : Reads (Proc.lift v : Op V α) s v :=
  ⟨Quiet.refl s, Or.inl rfl⟩

/-- Reads compose: the second part runs in a state that differs quietly from the first. -/
theorem bind_of {x : Op V α} {f : α → Op V β} {v : Except DbError α} {g : α → Except DbError β}
    (hx : Reads x s v)
    (hf : ∀ a s₁, x s = (.ok a, s₁) → v = .ok a → Quiet s s₁ → Reads (f a) s₁ (g a)) :
    Reads (x >>= f) s (v >>= g) := by
  obtain ⟨hq, hv⟩ := hx
  rcases hr : x s with ⟨r, s₁⟩
  rw [hr] at hq hv
  simp only at hq hv
  cases r with
  | error e =>
    refine ⟨by rw [Proc.bind_of_error hr]; exact hq, ?_⟩
    rw [Proc.bind_of_error hr]
    rcases hv with rfl | ⟨he, hcan⟩
    · exact Or.inl rfl
    · cases he
      exact Or.inr ⟨rfl, hcan⟩
  | ok a =>
    rcases hv with rfl | ⟨he, -⟩
    · obtain ⟨hq', hv'⟩ := hf a s₁ hr rfl hq
      refine ⟨by rw [Proc.bind_of_ok hr]; exact Quiet.trans _ _ _ hq hq', ?_⟩
      rw [Proc.bind_of_ok hr]
      exact hv'.imp_right fun h => ⟨h.1, fun h0 => h.2 (hq.calm h0)⟩
    · cases he

theorem bind {x : Op V α} {f : α → Op V β} {v : Except DbError α} {g : α → Except DbError β}
    (hx : Reads x s v) (hf : ∀ a s₁, v = .ok a → Quiet s s₁ → Reads (f a) s₁ (g a)) :
    Reads (x >>= f) s (v >>= g) := bind_of hx fun a s₁ _ => hf a s₁

theorem get_bind {f : Session V → Op V β} {v : Except DbError β} (h : Reads (f s) s v) :
    Reads (Proc.get >>= f) s v := ⟨h.quiet, h.value⟩

/-- Code that finished normally computed its value. -/
theorem ok {x : Op V α} {v : Except DbError α} (h : Reads x s v) {a : α} {s' : Session V}
    (hx : x s = (.ok a, s')) : v = .ok a ∧ Quiet s s' := by
  obtain ⟨hq, hv⟩ := h
  rw [hx] at hq hv
  rcases hv with hv | ⟨hv, -⟩
  · exact ⟨hv.symm, hq⟩
  · cases hv

end Reads

theorem checkCancel_reads (s : Session V) : Reads (checkCancel : Op V Unit) s (.ok ()) := by
  constructor
  · unfold checkCancel
    split
    · exact Quiet.refl s
    · exact Quiet.refl s
    · rename_i n h
      exact ⟨rfl, rfl, rfl, rfl, rfl, rfl, rfl, rfl, rfl,
        fun h0 => absurd (h0.symm.trans h) (by simp), Pristine.coherent, fun _ _ _ => rfl⟩
  · unfold checkCancel
    split
    · exact Or.inl rfl
    · rename_i h
      exact Or.inr ⟨rfl, by rw [h]; simp⟩
    · exact Or.inl rfl

@[simp] theorem catalogGet_apply (t : String) (s : Session V) :
    catalogGet t s = (s.eng.catalog.get t, s) := rfl

theorem catalogGet_reads (t : String) (s : Session V) :
    Reads (catalogGet t) s (s.eng.catalog.get t) := ⟨Quiet.refl s, Or.inl rfl⟩

/-! ## 2. Merging without cancel -/

/-- All insert batches cut and tagged. -/
def tagAll (cols : List String) :
    List (Int × Frame V) → Except DbError (List (List (Int × Row V)))
  | [] => .ok []
  | e :: l => do
    let p ← tagBatch cols e
    let ps ← tagAll cols l
    return p :: ps

theorem tagStep_reads (cols : List String) (e : Int × Frame V) (s : Session V) :
    Reads (tagStep cols e) s (tagBatch cols e) :=
  Reads.bind (g := fun _ => tagBatch cols e) (checkCancel_reads s) fun _ _ _ _ => Reads.lift _

theorem collect_tagStep_reads (cols : List String) : ∀ (l : List (Int × Frame V))
    (s : Session V), Reads (Proc.collect (tagStep cols) l) s (tagAll cols l)
  | [], _ => Reads.pure []
  | e :: l, s => Reads.bind (tagStep_reads cols e s) fun _ s₁ _ _ =>
      Reads.bind (collect_tagStep_reads cols l s₁) fun _ _ _ _ => Reads.pure _

section Merge

variable [DecidableEq V]

/-- `_merge_delta` without cancel. -/
def mergePure (c : Catalog V) (t : String) (base : Frame V) (ins : List (Int × Frame V))
    (tomb : List (Int × Frame V × Bool)) : Except DbError (Frame V) :=
  if ins.isEmpty && tomb.isEmpty then .ok base
  else do
    let parts ← tagAll base.columns ins
    let kept ← applyTombs (primaryKeyOf c t) base.columns tomb
      ((base.rows.map fun r => ((0 : Int), r)) ++ parts.flatten)
    return Frame.ofRows base.columns (kept.map Prod.snd)

theorem mergeDelta_reads (base : Frame V) (t : String) (s : Session V) :
    Reads (mergeDelta base t) s
      (mergePure s.eng.catalog t base (insertEntries s t) (tombEntries s t)) := by
  unfold mergeDelta mergePure
  refine Reads.get_bind ?_
  simp only
  split
  · exact Reads.pure base
  · exact Reads.bind (collect_tagStep_reads _ _ s) fun _ _ _ _ =>
      Reads.bind (Reads.lift _) fun _ _ _ _ => Reads.pure _

/-! ## 3. Scans without cancel -/

/-- `_scan` without cache and cancel. -/
def look (e : Engine V) (x : Option (Transaction V)) (t : String)
    (columns : Option (List String)) : Except DbError (Frame V) := do
  let s : Session V := ⟨e, x, {}⟩
  let base ← lookBase e t (columnSet columns)
  if hasPending s t then
    if hasTomb s t then
      let full ← lookBase e t none
      let merged ← mergePure e.catalog t full (insertEntries s t) (tombEntries s t)
      match columns with
      | none => return merged
      | some cs => merged.select (sortedSet cs)
    else mergePure e.catalog t base (insertEntries s t) (tombEntries s t)
  else return base

/-- The cache, the counter, the snapshots and the log are not read. -/
theorem look_congr {e e' : Engine V} (hcat : e'.catalog = e.catalog) (hd : e'.delta = e.delta)
    (hf : e'.disk.parquet = e.disk.parquet) (x : Option (Transaction V)) (t : String)
    (columns : Option (List String)) : look e' x t columns = look e x t columns := by
  simp only [look, lookBase, insertEntries, tombEntries, hasPending, hasTomb, hcat, hd, hf]
  rfl

omit [DecidableEq V] in
theorem get_eq_ok {c : Catalog V} {t : String} {i : TableInfo V} :
    c.get t = .ok i ↔ c.tables.get? t = some i := by
  unfold Catalog.get
  cases c.tables.get? t <;> simp

omit [DecidableEq V] in
theorem get_of_lookBase {e : Engine V} {t : String} {cols : Option (List String)} {f : Frame V}
    (h : lookBase e t cols = .ok f) :
    ∃ i, e.catalog.tables.get? t = some i ∧ e.disk.parquet.scan i.paths cols = .ok f := by
  unfold lookBase at h
  cases hi : e.catalog.get t with
  | error x =>
    rw [hi] at h
    cases h
  | ok i =>
    rw [hi] at h
    exact ⟨i, get_eq_ok.mp hi, h⟩

omit [DecidableEq V] in
theorem cachedBase_eq {e : Engine V} (hc : Coherent e) (t : String)
    (cols : Option (List String)) : cachedBase e t cols = lookBase e t cols := by
  unfold cachedBase
  cases hcache : e.scanCache.get? (t, cols) with
  | none => rfl
  | some f =>
    obtain ⟨i, hi, hf⟩ := hc t cols f hcache
    rw [lookBase, get_eq_ok.mpr hi]
    exact hf.symm

omit [DecidableEq V] in
/-- A frame read from the files may be cached.  This is what keeps the cache coherent through every
scan. -/
theorem Coherent.cache {e : Engine V} {t : String} {cols : Option (List String)} {f : Frame V}
    (hc : Coherent e) (hf : lookBase e t cols = .ok f) :
    Coherent { e with scanCache := e.scanCache.set (t, cols) f } := by
  intro u cs g hg
  change (e.scanCache.set (t, cols) f).get? (u, cs) = some g at hg
  rw [Dict.get?_set] at hg
  split at hg
  · rename_i heq
    cases heq
    cases hg
    exact get_of_lookBase hf
  · exact hc u cs g hg

omit [DecidableEq V] in
/-- Filling the cache with what the files hold changes no base. -/
theorem quiet_cache {s : Session V} {t : String} {cols : Option (List String)} {f : Frame V}
    (hcache : s.eng.scanCache.get? (t, cols) = none) (hf : lookBase s.eng t cols = .ok f) :
    Quiet s { s with eng := { s.eng with scanCache := s.eng.scanCache.set (t, cols) f } } := by
  refine ⟨rfl, rfl, rfl, rfl, rfl, rfl, rfl, rfl, rfl, id, fun hc => hc.coherent.cache hf, ?_⟩
  intro _ u cs
  by_cases heq : (u, cs) = (t, cols)
  · cases heq
    have hset : (s.eng.scanCache.set (t, cols) f).get? (t, cols) = some f := by
      rw [Dict.get?_set, if_pos rfl]
    simp only [cachedBase, hset, hcache, hf]
  · have hset : (s.eng.scanCache.set (t, cols) f).get? (u, cs) = s.eng.scanCache.get? (u, cs) := by
      rw [Dict.get?_set, if_neg heq]
    simp only [cachedBase, hset]
    rfl

omit [DecidableEq V] in
/-- The base of a scan comes from the cache or the files, and one that is read is cached. -/
theorem scanBase_cases (t : String) (cols : Option (List String)) (s : Session V) :
    scanBase t cols s = (cachedBase s.eng t cols, s) ∨
      ∃ f, s.eng.scanCache.get? (t, cols) = none ∧ lookBase s.eng t cols = .ok f ∧
        scanBase t cols s = (.ok f, { s with eng := { s.eng with
          scanCache := s.eng.scanCache.set (t, cols) f } }) := by
  unfold scanBase
  rw [Proc.get_bind]
  cases hcache : s.eng.scanCache.get? (t, cols) with
  | some f =>
    have hb : cachedBase s.eng t cols = .ok f := by simp only [cachedBase, hcache]
    rw [hb]
    exact Or.inl rfl
  | none =>
    have hb : cachedBase s.eng t cols = lookBase s.eng t cols := by simp only [cachedBase, hcache]
    rw [hb]
    simp only
    cases hi : s.eng.catalog.get t with
    | error x =>
      have hget : catalogGet t s = (.error x, s) := by rw [catalogGet_apply, hi]
      have hbase : lookBase s.eng t cols = .error x := by rw [lookBase, hi]; rfl
      rw [Proc.bind_of_error hget, hbase]
      exact Or.inl rfl
    | ok i =>
      have hget : catalogGet t s = (.ok i, s) := by rw [catalogGet_apply, hi]
      have hbase : lookBase s.eng t cols = s.eng.disk.parquet.scan i.paths cols := by
        rw [lookBase, hi]
        rfl
      rw [Proc.bind_of_ok hget, hbase]
      cases hf : s.eng.disk.parquet.scan i.paths cols with
      | error x => exact Or.inl rfl
      | ok f => exact Or.inr ⟨f, trivial, rfl, rfl⟩

omit [DecidableEq V] in
/-- The base of a scan is the cached frame or what the files hold, and the cache is filled. -/
theorem scanBase_reads (t : String) (cols : Option (List String)) (s : Session V) :
    Reads (scanBase t cols) s (cachedBase s.eng t cols) := by
  rcases scanBase_cases t cols s with h | ⟨f, hcache, hf, h⟩
  · exact ⟨by rw [h]; exact Quiet.refl s, by rw [h]; exact Or.inl rfl⟩
  · refine ⟨by rw [h]; exact quiet_cache hcache hf, ?_⟩
    rw [h]
    left
    simp only [cachedBase, hcache, hf]

/-- `_scan` without cancel. -/
def glance (e : Engine V) (x : Option (Transaction V)) (t : String)
    (columns : Option (List String)) : Except DbError (Frame V) := do
  let s : Session V := ⟨e, x, {}⟩
  let base ← cachedBase e t (columnSet columns)
  if hasPending s t then
    if hasTomb s t then
      let full ← lookBase e t none
      let merged ← mergePure e.catalog t full (insertEntries s t) (tombEntries s t)
      match columns with
      | none => return merged
      | some cs => merged.select (sortedSet cs)
    else mergePure e.catalog t base (insertEntries s t) (tombEntries s t)
  else return base

/-- With a coherent cache a scan may as well read the files. -/
theorem glance_eq {e : Engine V} (hc : Coherent e) (x : Option (Transaction V)) (t : String)
    (columns : Option (List String)) : glance e x t columns = look e x t columns := by
  rw [glance, cachedBase_eq hc]
  rfl

omit [DecidableEq V] in
/-- What a scan merges does not depend on the cache or the countdown. -/
theorem Quiet.entries {s s' : Session V} (h : Quiet s s') (t : String) :
    insertEntries s' t = insertEntries s t ∧ tombEntries s' t = tombEntries s t ∧
      hasPending s' t = hasPending s t ∧ hasTomb s' t = hasTomb s t := by
  unfold insertEntries tombEntries hasPending hasTomb
  rw [h.txn, h.delta]
  exact ⟨rfl, rfl, rfl, rfl⟩

/-- **A scan returns what its base, the delta and the buffer say**, or is cancelled, and leaves the
session as it found it up to the cache. -/
theorem scan_glances (t : String) (columns : Option (List String)) (s : Session V) :
    Reads (scan t columns) s (glance s.eng s.txn t columns) := by
  unfold scan glance
  refine Reads.bind (scanBase_reads t _ s) fun base s₁ _ hq => ?_
  obtain ⟨hins, htomb, hpend, hht⟩ := hq.entries t
  have hmerge : ∀ b : Frame V, Reads (mergeDelta b t) s₁ (mergePure s.eng.catalog t b
      (insertEntries s t) (tombEntries s t)) := by
    intro b
    rw [← hins, ← htomb, ← hq.catalog]
    exact mergeDelta_reads b t s₁
  refine Reads.get_bind ?_
  rw [hpend, hht]
  change Reads _ s₁ (if hasPending s t = true then _ else _)
  split
  · change Reads _ s₁ (if hasTomb s t = true then _ else _)
    split
    · have hbase : (lookBase s.eng t none >>= fun full => do
          let merged ← mergePure s.eng.catalog t full (insertEntries s t) (tombEntries s t)
          match columns with
          | none => return merged
          | some cs => merged.select (sortedSet cs)) =
        (s₁.eng.catalog.get t >>= fun i => s₁.eng.disk.parquet.scan i.paths none >>= fun full => do
          let merged ← mergePure s.eng.catalog t full (insertEntries s t) (tombEntries s t)
          match columns with
          | none => return merged
          | some cs => merged.select (sortedSet cs)) := by
        rw [lookBase, bind_assoc, hq.catalog, hq.disk]
      refine Eq.mpr (congrArg _ hbase) ?_
      refine Reads.bind (catalogGet_reads t s₁) fun i s₂ _ hq₂ => ?_
      rw [← hq₂.disk]
      refine Reads.bind (Reads.lift _) fun full s₃ _ hq₃ => ?_
      have hq' : Quiet s s₃ := Quiet.trans _ _ _ hq (Quiet.trans _ _ _ hq₂ hq₃)
      obtain ⟨hins', htomb', -, -⟩ := hq'.entries t
      rw [← hins', ← htomb', ← hq'.catalog]
      refine Reads.bind (mergeDelta_reads full t s₃) fun merged s₄ _ _ => ?_
      cases columns with
      | none => exact Reads.pure merged
      | some cs => exact Reads.lift _
    · exact hmerge base
  · exact Reads.pure base

/-- The catalog and the disk stay, and cached frames that are right stay right. -/
structure Warm (s s' : Session V) : Prop where
  catalog : s'.eng.catalog = s.eng.catalog
  disk : s'.eng.disk = s.eng.disk
  coherent : Coherent s.eng → Coherent s'.eng

omit [DecidableEq V] in
theorem Warm.refl (s : Session V) : Warm s s := ⟨rfl, rfl, id⟩

omit [DecidableEq V] in
theorem Warm.trans (a b c : Session V) (h : Warm a b) (h' : Warm b c) : Warm a c :=
  ⟨h'.catalog.trans h.catalog, h'.disk.trans h.disk, fun h0 => h'.coherent (h.coherent h0)⟩

omit [DecidableEq V] in
theorem warm_checkCancel : Proc.Keeps Warm (checkCancel : Op V Unit) := by
  intro s
  unfold checkCancel
  split
  · exact Warm.refl s
  · exact Warm.refl s
  · exact ⟨rfl, rfl, id⟩

omit [DecidableEq V] in
theorem warm_catalogGet (t : String) : Proc.Keeps Warm (catalogGet t : Op V (TableInfo V)) :=
  fun s => Warm.refl s

/-- **A scan writes into the cache only what the files hold.** -/
theorem warm_scan (t : String) (columns : Option (List String)) :
    Proc.Keeps Warm (scan t columns : Op V (Frame V)) := by
  have hlift : ∀ {α : Type} (v : Except DbError α), Proc.Keeps Warm (Proc.lift v : Op V α) :=
    fun v => Proc.Keeps.lift Warm.refl v
  have hbase : Proc.Keeps Warm (scanBase t (columnSet columns) : Op V (Frame V)) := by
    intro s
    rcases scanBase_cases t (columnSet columns) s with h | ⟨f, -, hf, h⟩
    · rw [h]
      exact Warm.refl s
    · rw [h]
      exact ⟨rfl, rfl, fun hc => hc.cache hf⟩
  have hmerge : ∀ b : Frame V, Proc.Keeps Warm (mergeDelta b t) := by
    intro b
    refine Proc.Keeps.bind Warm.trans (Proc.Keeps.get Warm.refl) fun s => ?_
    simp only
    split
    · exact Proc.Keeps.pure Warm.refl _
    · refine Proc.Keeps.bind Warm.trans (Proc.Keeps.collect Warm.refl Warm.trans (fun e => ?_) _)
        fun parts => Proc.Keeps.bind Warm.trans (hlift _) fun _ => Proc.Keeps.pure Warm.refl _
      exact Proc.Keeps.bind Warm.trans warm_checkCancel fun _ => hlift _
  refine Proc.Keeps.bind Warm.trans hbase fun base =>
    Proc.Keeps.bind Warm.trans (Proc.Keeps.get Warm.refl) fun s => ?_
  split
  · split
    · refine Proc.Keeps.bind Warm.trans (warm_catalogGet t) fun i =>
        Proc.Keeps.bind Warm.trans (hlift _) fun full =>
          Proc.Keeps.bind Warm.trans (hmerge full) fun merged => ?_
      cases columns with
      | none => exact Proc.Keeps.pure Warm.refl _
      | some cs => exact hlift _
    · exact hmerge base
  · exact Proc.Keeps.pure Warm.refl _

/-- With a coherent cache a scan returns what the files, the delta and the buffer say. -/
theorem scan_reads (t : String) (columns : Option (List String)) (s : Session V)
    (hc : Coherent s.eng) : Reads (scan t columns) s (look s.eng s.txn t columns) := by
  rw [← glance_eq hc]
  exact scan_glances t columns s

/-- The rows a `SELECT *` sees are those `glance` finds. -/
theorem visible_glance (e : Engine V) (t : String) :
    visible e t = (glance e none t none).map Frame.rows := by
  have h := (scan_glances t none ⟨e, none, {}⟩).value.calm rfl
  unfold visible
  rw [h]
  cases glance e none t none <;> rfl

theorem visibleIn_glance (e : Engine V) (x : Transaction V) (t : String) :
    visibleIn e x t = (glance e (some x) t none).map Frame.rows := by
  have h := (scan_glances t none ⟨e, some x, {}⟩).value.calm rfl
  unfold visibleIn
  rw [h]
  cases glance e (some x) t none <;> rfl

/-- The rows a `SELECT *` sees are those `look` finds. -/
theorem visible_eq {e : Engine V} (hc : Coherent e) (t : String) :
    visible e t = (look e none t none).map Frame.rows := by
  rw [visible_glance, glance_eq hc]

theorem visibleIn_eq {e : Engine V} (hc : Coherent e) (x : Transaction V) (t : String) :
    visibleIn e x t = (look e (some x) t none).map Frame.rows := by
  rw [visibleIn_glance, glance_eq hc]

end Merge

end RyuDB.Engine
