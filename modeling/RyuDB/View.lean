/-
# The rows a table shows

`look` computes the frame a scan returns.  `seen` is the same as a list of tagged rows: the base
rows at timestamp 0 and the insert batches at theirs, read through the tombstones as
`Versioned.collapse` reads them.  The two agree (`look_seen`) as long as every batch has the
columns of its table and every tombstone has the columns of the declared key (`EntriesOk`); the
engine keeps that (`EngineOk`, `TxnOk`), and from here on the arguments are about `seen`.

A scan of some columns shows the same rows cut to these columns (`look_project`), which is what
the uniqueness check of an insert reads.

There are two ways of saying what is seen because the two are good for different things.  `look` is
what the code computes, frames with columns, merged and grouped; `seen` is rows with timestamps, where
a commit is one more element of a list.  Every fact about a history or a commit is proved of `seen`
and carried to the code by `look_seen`.
-/
import RyuDB.Scan

namespace RyuDB.Engine

open Versioned

variable {V : Type}

/-! ## 1. Tagged rows -/

/-- The rows of the insert batches, each with the timestamp of its batch. -/
def tagRows (l : List (Int × Frame V)) : List (Int × Row V) :=
  l.flatMap fun e => e.2.rows.map fun r => (e.1, r)

/-- The tombstones of one kind under the key columns `key`: keys without NULL, with timestamp. -/
def tombPairs (key : List String) (fl : Bool) (l : List (Int × Frame V × Bool)) :
    List (Key V × Int) :=
  (l.filter fun e => decide (e.2.2 = fl)).flatMap fun e =>
    ((e.2.1.rows.map (keyOf key)).filter Key.nonNull).map fun k => (k, e.1)

/-- The columns tombstones are read under. -/
def keyCols (i : TableInfo V) : List String := i.constraints.primaryKey.getD []

@[simp] theorem tagRows_append (l l' : List (Int × Frame V)) :
    tagRows (l ++ l') = tagRows l ++ tagRows l' := List.flatMap_append

@[simp] theorem tombPairs_append (key : List String) (fl : Bool)
    (l l' : List (Int × Frame V × Bool)) :
    tombPairs key fl (l ++ l') = tombPairs key fl l ++ tombPairs key fl l' := by
  rw [tombPairs, List.filter_append, List.flatMap_append]
  rfl

@[simp] theorem tagRows_nil : tagRows ([] : List (Int × Frame V)) = [] := rfl

@[simp] theorem tombPairs_nil (key : List String) (fl : Bool) :
    tombPairs key fl ([] : List (Int × Frame V × Bool)) = [] := rfl

/-- The rows of a base and of insert batches, seen through tombstones. -/
def seenOf [DecidableEq V] (key : List String) (base : List (Row V))
    (ins : List (Int × Frame V)) (tomb : List (Int × Frame V × Bool)) : List (Int × Row V) :=
  collapse (keyOf key) ((base.map fun r => ((0 : Int), r)) ++ tagRows ins)
    (tombPairs key false tomb) (tombPairs key true tomb)

/-- The rows of the base files, none when they cannot be read. -/
def baseRows (e : Engine V) (i : TableInfo V) : List (Row V) :=
  match e.disk.parquet.scan i.paths none with
  | .ok b => b.rows
  | .error _ => []

/-- The tagged rows of `t` that a read sees, outside a transaction or inside one. -/
def seen [DecidableEq V] (e : Engine V) (x : Option (Transaction V)) (t : String) :
    List (Int × Row V) :=
  match e.catalog.tables.get? t with
  | none => []
  | some i => seenOf (keyCols i) (baseRows e i) (insertEntries ⟨e, x, {}⟩ t)
      (tombEntries ⟨e, x, {}⟩ t)

/-! ## 2. Shape -/

/-- An insert batch has the columns of its table. -/
def InsOk (c : Catalog V) (t : String) (f : Frame V) : Prop :=
  ∃ i, c.tables.get? t = some i ∧ f.columns = i.columns

/-- A tombstone has the columns of the declared key of its table. -/
def TombOk (c : Catalog V) (t : String) (g : Frame V) : Prop :=
  ∃ i p, c.tables.get? t = some i ∧ i.constraints.primaryKey = some p ∧ p ≠ [] ∧
    (∀ col ∈ p, col ∈ i.columns) ∧ g.columns = p

/-- The batches and tombstones a scan of `t` merges are well shaped. -/
structure EntriesOk (c : Catalog V) (t : String) (ins : List (Int × Frame V))
    (tomb : List (Int × Frame V × Bool)) : Prop where
  ins : ∀ e ∈ ins, 0 ≤ e.1 ∧ InsOk c t e.2
  tomb : ∀ e ∈ tomb, TombOk c t e.2.1

/-- The tags of the merged rows are not negative. -/
theorem tags_nonneg {ins : List (Int × Frame V)} (h : ∀ e ∈ ins, 0 ≤ e.1) (base : List (Row V)) :
    ∀ x ∈ (base.map fun r => ((0 : Int), r)) ++ tagRows ins, 0 ≤ x.1 := by
  intro x hx
  rcases List.mem_append.mp hx with hx | hx
  · obtain ⟨r, -, rfl⟩ := List.mem_map.mp hx
    exact le_refl _
  · obtain ⟨e, he, hx⟩ := List.mem_flatMap.mp hx
    obtain ⟨r, -, rfl⟩ := List.mem_map.mp hx
    exact h e he

/-- The tags a reader compares are not negative. -/
theorem EntriesOk.nonneg {c : Catalog V} {t : String} {ins : List (Int × Frame V)}
    {tomb : List (Int × Frame V × Bool)} (h : EntriesOk c t ins tomb) (base : List (Row V)) :
    ∀ x ∈ (base.map fun r => ((0 : Int), r)) ++ tagRows ins, 0 ≤ x.1 :=
  tags_nonneg (fun e he => (h.ins e he).1) base

/-- Every registered table has readable files with the columns of its schema. -/
def BaseOk (e : Engine V) : Prop := ∀ t i, e.catalog.tables.get? t = some i →
  ∃ b, e.disk.parquet.scan i.paths none = .ok b ∧ b.columns = i.columns

/-- The committed batches and tombstones are well shaped and have timestamps in `[1, commitTs]`. -/
structure DeltaOk (e : Engine V) : Prop where
  ins : ∀ t, ∀ b ∈ e.delta.batchesWithTs t, (1 ≤ b.1 ∧ b.1 ≤ e.commitTs) ∧ InsOk e.catalog t b.2
  tomb : ∀ t, ∀ b ∈ e.delta.tombstonesWithTs t,
    (1 ≤ b.1 ∧ b.1 ≤ e.commitTs) ∧ TombOk e.catalog t b.2.1

/-- The state a scan can rely on. -/
structure EngineOk (e : Engine V) : Prop where
  coherent : Coherent e
  base : BaseOk e
  delta : DeltaOk e

/-- The buffer of a transaction is well shaped. -/
structure TxnOk (c : Catalog V) (x : Transaction V) : Prop where
  ins : ∀ t, ∀ f ∈ x.bufferBatches t, InsOk c t f
  tomb : ∀ t, ∀ g ∈ x.tombstoneBatchesWithFlag t, TombOk c t g.1

/-- No transaction, or a well-shaped one. -/
def TxnOk? (c : Catalog V) (x : Option (Transaction V)) : Prop := ∀ y, x = some y → TxnOk c y

theorem insInf_nonneg : 0 ≤ insInf := by decide

/-- What a scan merges is well shaped in a well-shaped engine. -/
theorem EngineOk.entries {e : Engine V} (h : EngineOk e) {x : Option (Transaction V)}
    (hx : TxnOk? e.catalog x) (t : String) :
    EntriesOk e.catalog t (insertEntries ⟨e, x, {}⟩ t) (tombEntries ⟨e, x, {}⟩ t) := by
  have hins : ∀ b ∈ e.delta.batchesWithTs t, 0 ≤ b.1 ∧ InsOk e.catalog t b.2 := by
    intro b hb
    obtain ⟨⟨h1, -⟩, hok⟩ := h.delta.ins t b hb
    exact ⟨by omega, hok⟩
  have htomb : ∀ b ∈ e.delta.tombstonesWithTs t, TombOk e.catalog t b.2.1 :=
    fun b hb => (h.delta.tomb t b hb).2
  cases x with
  | none => exact ⟨hins, htomb⟩
  | some y =>
    constructor
    · intro b hb
      rcases List.mem_append.mp hb with hb | hb
      · exact hins b (List.mem_of_mem_filter hb)
      · obtain ⟨f, hf, rfl⟩ := List.mem_map.mp hb
        exact ⟨insInf_nonneg, (hx y rfl).ins t f hf⟩
    · intro b hb
      rcases List.mem_append.mp hb with hb | hb
      · exact htomb b (List.mem_of_mem_filter hb)
      · obtain ⟨g, hg, rfl⟩ := List.mem_map.mp hb
        exact (hx y rfl).tomb t g hg

/-! ## 3. The merge, row by row -/

theorem tagBatch_of_columns {cols : List String} {e : Int × Frame V} (h : e.2.columns = cols) :
    tagBatch cols e = .ok (e.2.rows.map fun r => (e.1, r)) := by
  subst h
  rw [tagBatch, Frame.select_self]

theorem tagAll_of_columns {cols : List String} : ∀ {l : List (Int × Frame V)},
    (∀ e ∈ l, e.2.columns = cols) → ∃ ps, tagAll cols l = .ok ps ∧ ps.flatten = tagRows l
  | [], _ => ⟨[], rfl, rfl⟩
  | e :: l, h => by
    obtain ⟨ps, hps, hflat⟩ := tagAll_of_columns fun e' he' => h e' (List.mem_cons_of_mem _ he')
    refine ⟨(e.2.rows.map fun r => (e.1, r)) :: ps, ?_, ?_⟩
    · rw [tagAll, tagBatch_of_columns (h e List.mem_cons_self), hps]
      rfl
    · rw [List.flatten_cons, hflat]
      rfl

theorem tombKeys_of_columns {key : List String} : ∀ {l : List (Int × Frame V × Bool)},
    (∀ e ∈ l, ∀ c ∈ key, c ∈ e.2.1.columns) → tombKeys key l =
      .ok (l.flatMap fun e => e.2.1.rows.map fun r => (e.1, keyOf key r, e.2.2))
  | [], _ => rfl
  | (ts, f, fl) :: l, h => by
    have hf : ∀ c ∈ key, c ∈ f.columns := h (ts, f, fl) List.mem_cons_self
    have hl := tombKeys_of_columns fun e' he' => h e' (List.mem_cons_of_mem _ he')
    have hk : (f.rows.map (restrict key)).map (fun r => (ts, keyOf key r, fl)) =
        f.rows.map fun r => (ts, keyOf key r, fl) := by
      rw [List.map_map]
      refine List.map_congr_left fun r _ => ?_
      rw [Function.comp_apply, keyOf_restrict fun _ hc => hc]
    rw [tombKeys, Frame.select_of_subset hf]
    simp only [hl, Frame.ofRows_rows, hk, List.flatMap_cons]

/-- The keys the merge groups are the tombstones of `tombPairs`. -/
theorem tombsFlagged_flatMap (key : List String) (fl : Bool) :
    ∀ l : List (Int × Frame V × Bool),
      tombsFlagged fl (l.flatMap fun e => e.2.1.rows.map fun r => (e.1, keyOf key r, e.2.2)) =
        tombPairs key fl l
  | [] => rfl
  | (ts, f, b) :: l => by
    have ih := tombsFlagged_flatMap key fl l
    unfold tombsFlagged at ih ⊢
    rw [List.flatMap_cons, List.filter_append, List.map_append, ih, ← List.singleton_append,
      tombPairs_append]
    congr 1
    by_cases hb : b = fl
    · simp [tombPairs, hb, List.filter_map, Function.comp_def]
    · simp [tombPairs, hb, List.filter_map, Function.comp_def]

section Rows

variable [DecidableEq V] {c : Catalog V} {t : String} {i : TableInfo V}

/-- **The merge shows the collapsed rows.**  The tags must not be negative where no tombstone is
compared with them. -/
theorem mergePure_shaped (hi : c.tables.get? t = some i) {b : Frame V}
    (hb : b.columns = i.columns) {ins : List (Int × Frame V)}
    {tomb : List (Int × Frame V × Bool)} (hins : ∀ e ∈ ins, InsOk c t e.2)
    (htombs : ∀ e ∈ tomb, TombOk c t e.2.1) (hnn : tomb = [] → ∀ e ∈ ins, 0 ≤ e.1) :
    ∃ f, mergePure c t b ins tomb = .ok f ∧ f.columns = i.columns ∧
      f.rows = (seenOf (keyCols i) b.rows ins tomb).map Prod.snd := by
  have hcols : ∀ e ∈ ins, e.2.columns = b.columns := by
    intro e he
    obtain ⟨i', hi', hc⟩ := hins e he
    rw [hi] at hi'
    cases hi'
    rw [hc, hb]
  have hpos : tomb = [] → ∀ x ∈ (b.rows.map fun r => ((0 : Int), r)) ++ tagRows ins, 0 ≤ x.1 :=
    fun h0 => tags_nonneg (hnn h0) b.rows
  -- every row that is merged lives in the columns of the base
  have hsupp : ∀ x ∈ (b.rows.map fun r => ((0 : Int), r)) ++ tagRows ins,
      restrict b.columns x.2 = x.2 := by
    intro x hx
    rcases List.mem_append.mp hx with hx | hx
    · obtain ⟨r, hr, rfl⟩ := List.mem_map.mp hx
      exact Frame.restrict_self hr
    · obtain ⟨e, he, hx⟩ := List.mem_flatMap.mp hx
      obtain ⟨r, hr, rfl⟩ := List.mem_map.mp hx
      rw [← hcols e he]
      exact Frame.restrict_self hr
  by_cases hempty : (ins.isEmpty && tomb.isEmpty) = true
  · obtain ⟨hi0, ht0⟩ := Bool.and_eq_true_iff.mp hempty
    rw [List.isEmpty_iff] at hi0 ht0
    subst hi0 ht0
    refine ⟨b, by rw [mergePure, if_pos hempty], hb, ?_⟩
    simp only [seenOf, tombPairs_nil]
    rw [collapse_nil (hpos rfl)]
    simp [Function.comp_def]
  · obtain ⟨ps, hps, hflat⟩ := tagAll_of_columns hcols
    have happ : applyTombs (primaryKeyOf c t) b.columns tomb
        ((b.rows.map fun r => ((0 : Int), r)) ++ ps.flatten) =
          .ok (seenOf (keyCols i) b.rows ins tomb) := by
      rw [hflat]
      unfold applyTombs
      cases htomb : tomb with
      | nil =>
        simp only [List.isEmpty_nil, if_true, seenOf, tombPairs_nil]
        rw [collapse_nil (hpos htomb)]
      | cons e l =>
        rw [← htomb]
        have he : e ∈ tomb := by rw [htomb]; exact List.mem_cons_self
        obtain ⟨i', p, hi', hp, hne, hsub, -⟩ := htombs e he
        rw [hi] at hi'
        cases hi'
        have hall : ∀ e ∈ tomb, ∀ col ∈ p, col ∈ e.2.1.columns := by
          intro e he col hcol
          obtain ⟨i'', p', hi'', hp', -, -, hg⟩ := htombs e he
          rw [hi] at hi''
          cases hi''
          rw [hp] at hp'
          cases hp'
          rwa [hg]
        have hpk : primaryKeyOf c t = .ok (some p) := by
          rw [primaryKeyOf, get_eq_ok.mpr hi]
          simp only [hp]
        have hmiss : p.filter (fun col => decide (col ∉ b.columns)) = [] := by
          refine List.filter_eq_nil_iff.mpr fun col hcol => ?_
          rw [hb]
          simpa using hsub col hcol
        have hk : keyCols i = p := by rw [keyCols, hp, Option.getD_some]
        have hpe : p.isEmpty = false := by cases p with
          | nil => exact absurd rfl hne
          | cons _ _ => rfl
        have hte : tomb.isEmpty = false := by rw [htomb]; rfl
        simp only [hte, Bool.false_eq_true, if_false, hpk, tombKeys_of_columns hall, antiJoin, hpe,
          Bool.false_and, hmiss, tombsFlagged_flatMap, seenOf, hk]
    refine ⟨Frame.ofRows b.columns ((seenOf (keyCols i) b.rows ins tomb).map Prod.snd), ?_, hb, ?_⟩
    · rw [mergePure, if_neg hempty, hps]
      simp only [bind, Except.bind, happ]
      rfl
    · rw [Frame.ofRows_rows]
      refine (List.map_congr_left fun r hr => ?_).trans (List.map_id _)
      obtain ⟨x, hx, rfl⟩ := List.mem_map.mp hr
      exact hsupp x (List.mem_of_mem_filter hx)

/-- The merge of well-shaped entries. -/
theorem mergePure_seen (hi : c.tables.get? t = some i) {b : Frame V} (hb : b.columns = i.columns)
    {ins : List (Int × Frame V)} {tomb : List (Int × Frame V × Bool)}
    (h : EntriesOk c t ins tomb) : ∃ f, mergePure c t b ins tomb = .ok f ∧
      f.columns = i.columns ∧
      f.rows = (seenOf (keyCols i) b.rows ins tomb).map Prod.snd :=
  mergePure_shaped hi hb (fun e he => (h.ins e he).2) h.tomb fun _ e he => (h.ins e he).1

/-! ## 4. Scans -/

omit [DecidableEq V] in
theorem hasPending_false {s : Session V} {t : String} (h : hasPending s t = false) :
    insertEntries s t = [] ∧ tombEntries s t = [] := by
  unfold hasPending at h
  rw [Bool.or_eq_false_iff, ← Bool.not_eq_true, DeltaStore.hasUnflushed_iff] at h
  obtain ⟨hd, hx⟩ := h
  rw [not_or, not_not, not_not] at hd
  unfold insertEntries tombEntries
  cases htxn : s.txn with
  | none => exact hd
  | some x =>
    rw [htxn] at hx
    simp only at hx
    rw [← Bool.not_eq_true, Transaction.has_iff, not_or, not_not, not_not] at hx
    simp only [DeltaStore.batchesAtWithTs_eq, DeltaStore.tombstonesAtWithTs_eq, hd.1, hd.2, hx.1,
      hx.2, List.filter_nil, List.map_nil, List.append_nil, and_self]

omit [DecidableEq V] in
theorem hasTomb_false {s : Session V} {t : String} (h : hasTomb s t = false) :
    tombEntries s t = [] := by
  unfold hasTomb at h
  rw [Bool.or_eq_false_iff, ← Bool.not_eq_true, DeltaStore.hasTombstones_iff, not_not] at h
  obtain ⟨hd, hx⟩ := h
  unfold tombEntries
  cases htxn : s.txn with
  | none => exact hd
  | some x =>
    rw [htxn] at hx
    simp only at hx
    rw [← Bool.not_eq_true, Transaction.hasTombstone_iff, not_not] at hx
    simp only [DeltaStore.tombstonesAtWithTs_eq, hd, hx, List.filter_nil, List.map_nil,
      List.append_nil]

/-- A full scan is the base merged with the entries, whichever way the code takes: without
pending entries the merge returns the base, and the base is read the same way twice. -/
theorem look_none (e : Engine V) (x : Option (Transaction V)) (t : String) :
    look e x t none = lookBase e t none >>= fun b =>
      mergePure e.catalog t b (insertEntries ⟨e, x, {}⟩ t) (tombEntries ⟨e, x, {}⟩ t) := by
  unfold look
  simp only [columnSet]
  cases hb : lookBase e t none with
  | error y => rfl
  | ok b =>
    simp only [bind, Except.bind]
    cases hp : hasPending ⟨e, x, {}⟩ t with
    | false =>
      obtain ⟨h1, h2⟩ := hasPending_false hp
      simp only [h1, h2, mergePure, List.isEmpty_nil, Bool.and_self, if_true, Bool.false_eq_true,
        if_false]
      rfl
    | true =>
      simp only [if_true]
      split
      · cases mergePure e.catalog t b (insertEntries ⟨e, x, {}⟩ t) (tombEntries ⟨e, x, {}⟩ t) <;>
          rfl
      · rfl

omit [DecidableEq V] in
theorem lookBase_ok {e : Engine V} (hi : e.catalog.tables.get? t = some i)
    (cols : Option (List String)) :
    lookBase e t cols = e.disk.parquet.scan i.paths cols := by
  rw [lookBase, get_eq_ok.mpr hi]
  rfl

/-- **A scan shows the seen rows.** -/
theorem look_seen {e : Engine V} (h : EngineOk e) {x : Option (Transaction V)}
    (hx : TxnOk? e.catalog x) (hi : e.catalog.tables.get? t = some i) :
    ∃ f, look e x t none = .ok f ∧ f.columns = i.columns ∧
      f.rows = (seen e x t).map Prod.snd := by
  obtain ⟨b, hb, hbc⟩ := h.base t i hi
  obtain ⟨f, hf, hfc, hfr⟩ := mergePure_seen hi hbc (h.entries hx t)
  refine ⟨f, ?_, hfc, ?_⟩
  · rw [look_none, lookBase_ok hi, hb]
    exact hf
  · rw [hfr, seen, hi]
    simp only [baseRows, hb]

theorem visibleIn_seen {e : Engine V} {x : Transaction V} (h : EngineOk e)
    (hx : TxnOk e.catalog x)
    (hi : e.catalog.tables.get? t = some i) :
    visibleIn e x t = .ok ((seen e (some x) t).map Prod.snd) := by
  obtain ⟨f, hf, -, hfr⟩ := look_seen h (x := some x) (by intro y hy; cases hy; exact hx) hi
  rw [visibleIn_eq h.coherent, hf, ← hfr]
  rfl

theorem visible_seen {e : Engine V} (h : EngineOk e) (hi : e.catalog.tables.get? t = some i) :
    visible e t = .ok ((seen e none t).map Prod.snd) := by
  obtain ⟨f, hf, -, hfr⟩ := look_seen h (x := none) (by intro y hy; cases hy) hi
  rw [visible_eq h.coherent, hf, ← hfr]
  rfl

omit [DecidableEq V] in
theorem restrict_restrict (cs : List String) (r : Row V) :
    restrict cs (restrict cs r) = restrict cs r := by
  funext c
  by_cases hc : c ∈ cs
  · rw [restrict_mem hc]
  · rw [restrict_notMem hc, restrict_notMem hc]

omit [DecidableEq V] in
theorem tagAll_project {cs : List String} : ∀ {l : List (Int × Frame V)},
    (∀ e ∈ l, ∀ col ∈ cs, col ∈ e.2.columns) → ∃ ps, tagAll cs l = .ok ps ∧
      ps.flatten = (tagRows l).map fun y => (y.1, restrict cs y.2)
  | [], _ => ⟨[], rfl, rfl⟩
  | e :: l, h => by
    obtain ⟨ps, hps, hflat⟩ := tagAll_project fun e' he' => h e' (List.mem_cons_of_mem _ he')
    have he : tagBatch cs e = .ok ((e.2.rows.map (restrict cs)).map fun r => (e.1, r)) := by
      rw [tagBatch, Frame.select_of_subset (h e List.mem_cons_self)]
      rfl
    refine ⟨((e.2.rows.map (restrict cs)).map fun r => (e.1, r)) :: ps, ?_, ?_⟩
    · rw [tagAll, he, hps]
      rfl
    · rw [List.flatten_cons, hflat, tagRows, tagRows, List.flatMap_cons, List.map_append,
        List.map_map, List.map_map]
      rfl

/-- Without tombstones the merge of a projected base is the projection of the merge. -/
theorem mergePure_project (hi : c.tables.get? t = some i) {b : Frame V} {cs : List String}
    (hsub : ∀ col ∈ cs, col ∈ i.columns) {ins : List (Int × Frame V)}
    (h : EntriesOk c t ins []) : ∃ f, mergePure c t (Frame.ofRows cs b.rows) ins [] = .ok f ∧
      f.columns = cs ∧
      f.rows = (seenOf (keyCols i) b.rows ins []).map fun y => restrict cs y.2 := by
  have hpos := h.nonneg b.rows
  have hseen : seenOf (keyCols i) b.rows ins [] =
      (b.rows.map fun r => ((0 : Int), r)) ++ tagRows ins := by
    simp only [seenOf, tombPairs_nil]
    exact collapse_nil hpos
  by_cases hempty : ins = []
  · subst hempty
    refine ⟨Frame.ofRows cs b.rows, rfl, rfl, ?_⟩
    rw [hseen, Frame.ofRows_rows, tagRows_nil, List.append_nil, List.map_map]
    rfl
  · have hcols : ∀ e ∈ ins, ∀ col ∈ cs, col ∈ e.2.columns := by
      intro e he col hcol
      obtain ⟨-, i', hi', hc⟩ := h.ins e he
      rw [hi] at hi'
      cases hi'
      rw [hc]
      exact hsub col hcol
    obtain ⟨ps, hps, hflat⟩ := tagAll_project hcols
    have hne : (ins.isEmpty && ([] : List (Int × Frame V × Bool)).isEmpty) = false := by
      cases ins with
      | nil => exact absurd rfl hempty
      | cons _ _ => rfl
    refine ⟨Frame.ofRows cs ((((Frame.ofRows cs b.rows).rows.map fun r => ((0 : Int), r)) ++
      ps.flatten).map Prod.snd), ?_, rfl, ?_⟩
    · rw [mergePure, hne]
      simp only [Bool.false_eq_true, if_false, Frame.ofRows_columns, hps, bind, Except.bind,
        applyTombs, List.isEmpty_nil, if_true]
      rfl
    · rw [hseen, hflat]
      simp only [Frame.ofRows_rows, List.map_append, List.map_map, Function.comp_def,
        restrict_restrict]

/-- **A scan of some columns shows the seen rows cut to these columns.** -/
theorem look_project {e : Engine V} (h : EngineOk e) {x : Option (Transaction V)}
    (hx : TxnOk? e.catalog x) (hi : e.catalog.tables.get? t = some i) {cs : List String}
    (hne : cs ≠ []) (hsub : ∀ col ∈ cs, col ∈ i.columns) :
    ∃ g, look e x t (some cs) = .ok g ∧ g.columns = sortedSet cs ∧
      g.rows = (seen e x t).map fun y => restrict (sortedSet cs) y.2 := by
  obtain ⟨b, hb, hbc⟩ := h.base t i hi
  have hent := h.entries hx t
  have hsub' : ∀ col ∈ sortedSet cs, col ∈ i.columns := fun col hc =>
    hsub col (mem_sortedSet.mp hc)
  have hset : columnSet (some cs) = some (sortedSet cs) := by
    cases cs with
    | nil => exact absurd rfl hne
    | cons _ _ => rfl
  have hproj : lookBase e t (some (sortedSet cs)) = .ok (Frame.ofRows (sortedSet cs) b.rows) := by
    rw [lookBase_ok hi, Files.scan_some hb,
      Frame.select_of_subset fun col hc => by rw [hbc]; exact hsub' col hc]
  have hseen : seen e x t = seenOf (keyCols i) b.rows (insertEntries ⟨e, x, {}⟩ t)
      (tombEntries ⟨e, x, {}⟩ t) := by
    rw [seen, hi]
    simp only [baseRows, hb]
  unfold look
  rw [hset, hproj]
  simp only [bind, Except.bind]
  cases hp : hasPending ⟨e, x, {}⟩ t with
  | false =>
    obtain ⟨h1, h2⟩ := hasPending_false hp
    rw [h1, h2] at hseen hent
    refine ⟨Frame.ofRows (sortedSet cs) b.rows, rfl, rfl, ?_⟩
    rw [hseen]
    simp only [seenOf, tombPairs_nil, tagRows_nil, List.append_nil]
    rw [collapse_nil (by simp)]
    simp [Function.comp_def]
  | true =>
    simp only [if_true]
    cases ht : hasTomb ⟨e, x, {}⟩ t with
    | true =>
      obtain ⟨f, hf, hfc, hfr⟩ := mergePure_seen hi hbc hent
      refine ⟨Frame.ofRows (sortedSet cs) f.rows, ?_, rfl, ?_⟩
      · simp only [if_true, lookBase_ok hi, hb, hf]
        exact Frame.select_of_subset fun col hc => by rw [hfc]; exact hsub' col hc
      · rw [hseen, Frame.ofRows_rows, hfr, List.map_map]
        rfl
    | false =>
      have h0 := hasTomb_false ht
      rw [h0] at hseen hent
      obtain ⟨g, hg, hgc, hgr⟩ := mergePure_project hi (b := b) hsub' hent
      refine ⟨g, ?_, hgc, ?_⟩
      · simp only [Bool.false_eq_true, if_false, h0]
        exact hg
      · rw [hseen, hgr]

end Rows

end RyuDB.Engine
