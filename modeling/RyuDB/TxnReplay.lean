/-
# A transaction replays its statements

Inside a transaction the buffered rows and the buffered tombstones carry no order among
themselves.  `refStep` is what the statements mean one after another: an INSERT adds its rows, a
DELETE removes the rows its predicate selects.  `transaction_replays` says exactly when the rows
the transaction shows after each statement, and the rows everybody sees after COMMIT, are the
rows of that meaning: when every statement `Fits`.  An INSERT fits when no earlier DELETE of the
transaction removed one of its keys; a DELETE fits when the rows it removes have keys without
NULL that no row it leaves shares.

The argument is one step long: a buffered batch adds its rows less those with a removed key
(`seen_bufferAppend`), a buffered tombstone removes the rows whose key it names
(`seen_tombstoneAppend`), and each agrees with the meaning of its statement exactly when the
statement fits.
-/
import RyuDB.MergeColumns

namespace RyuDB.Engine

open Versioned

variable {V : Type}

/-! ## 1. The meaning of the statements -/

/-- The rows of the table and the keys removed so far, statement by statement. -/
structure Ref (V : Type) where
  rows : List (Row V)
  gone : List (Key V)

/-- The rows a predicate selects; without one, all. -/
def selects (p : Option (Pred V)) (r : Row V) : Bool :=
  match p with
  | none => true
  | some p => p.value r

section Meaning

variable [DecidableEq V] (H : Host V)

/-- The rows an INSERT adds: its literal rows as typed, or the result of its query in `s`. -/
def added (s : Session V) : Stmt V → List (Row V)
  | .insert n => match batchPure H s.eng n with
    | .ok f => f.rows
    | .error _ => []
  | .insertSelect n => match sourcePure H s.eng s.txn n with
    | .ok (some f) => f.rows
    | _ => []
  | _ => []

/-- What an INSERT or DELETE means on the rows of its table. -/
def refStep (key : List String) (s : Session V) (ρ : Ref V) : Stmt V → Ref V
  | .delete n => ⟨ρ.rows.filter fun r => !selects n.predicate r,
      ρ.gone ++ (ρ.rows.filter (selects n.predicate)).map (keyOf key)⟩
  | st => { ρ with rows := ρ.rows ++ added H s st }

/-- The statement does not meet a key that the transaction cannot tell apart. -/
def Fits (key : List String) (s : Session V) (ρ : Ref V) : Stmt V → Prop
  | .delete n => (∀ r ∈ ρ.rows, selects n.predicate r = true → Key.nonNull (keyOf key r) = true) ∧
      ∀ r ∈ ρ.rows, ∀ r' ∈ ρ.rows, selects n.predicate r = true → selects n.predicate r' = false →
        keyOf key r ≠ keyOf key r'
  | st => ∀ r ∈ added H s st, keyOf key r ∉ ρ.gone

/-- An INSERT or DELETE on `t`. -/
def WritesTo (t : String) : Stmt V → Prop
  | .insert n => n.table = t
  | .insertSelect n => n.table = t
  | .delete n => n.table = t
  | _ => False

/-- One statement: the session moves as the code says, the reference as the statement means. -/
def replayStep (key : List String) (σ : Session V × Ref V) (a : Stmt V × Faults) :
    Session V × Ref V :=
  ((sql H a.1 { σ.1 with faults := a.2 }).2, refStep H key σ.1 σ.2 a.1)

/-- The statement writes to `t` and succeeds, and its aggregates leave the cached frames alone. -/
def Succeeds (t : String) (σ : Session V × Ref V) (a : Stmt V × Faults) : Prop :=
  WritesTo t a.1 ∧ a.2.writesBack = false ∧ ∃ r, (sql H a.1 { σ.1 with faults := a.2 }).1 = .ok r

/-- A read inside the transaction shows the rows of the reference. -/
def Agrees (t : String) (σ : Session V × Ref V) : Prop :=
  ∃ x rows, σ.1.txn = some x ∧ visibleIn σ.1.eng x t = .ok rows ∧ rows.Perm σ.2.rows

end Meaning

/-! ## 2. A successful statement -/

section Runs

variable [DecidableEq V] {H : Host V} {s s' : Session V} {x : Transaction V}

omit [DecidableEq V] in
/-- A sequence that returned passed its reading part. -/
theorem Reads.of_ok {α β : Type} {y : Op V α} {k : α → Op V β} {v : Except DbError α}
    (h : Reads y s v) {b : β} (hrun : (y >>= k) s = (.ok b, s')) :
    ∃ a s₁, v = .ok a ∧ Quiet s s₁ ∧ k a s₁ = (.ok b, s') := by
  rcases h.cont k with ⟨z, s₁, hz, -⟩ | ⟨a, s₁, hv, hq, ha⟩
  · rw [hz] at hrun
    cases hrun
  · exact ⟨a, s₁, hv, hq, by rw [← ha]; exact hrun⟩

/-- The batch was buffered in the open transaction, and nothing else moved. -/
def Buffers (s : Session V) (x : Transaction V) (t : String) (f : Frame V) (s' : Session V) : Prop :=
  ∃ s₁, Quiet s s₁ ∧ s' = { s₁ with txn := some (x.bufferAppend t f) }

omit [DecidableEq V] in
theorem appendFrame_of_ok {s₁ : Session V} (hx : s.txn = some x) (hq : Quiet s s₁) {t : String}
    {f : Frame V} {n m : Nat}
    (h : (appendFrame H t f >>= fun _ => (pure n : Op V Nat)) s₁ = (.ok m, s')) :
    Buffers s x t f s' := by
  rw [Proc.bind_of_ok (appendFrame_txn H (by rw [hq.txn, hx]) f)] at h
  cases h
  exact ⟨s₁, hq, rfl⟩

theorem insert_of_ok (hc : Pristine s) (hx : s.txn = some x) {n : InsertNode V} {m : Nat}
    (h : insert H n s = (.ok m, s')) :
    ∃ f, batchPure H s.eng n = .ok f ∧ Buffers s x n.table f s' := by
  obtain ⟨f, s₁, hf, hq, h⟩ := (insertBatch_reads H s n).of_ok h
  obtain ⟨u, s₂, -, hq₂, h⟩ := (enforceUnique_reads hc hq n.table f).of_ok h
  exact ⟨f, hf, appendFrame_of_ok hx (Quiet.trans _ _ _ hq hq₂) h⟩

theorem insertSelect_of_ok (hc : Pristine s) (hx : s.txn = some x) {n : InsertSelectNode V}
    {m : Nat} (h : insertSelect H n s = (.ok m, s')) :
    (sourcePure H s.eng s.txn n = .ok none ∧ Quiet s s') ∨
      ∃ f, sourcePure H s.eng s.txn n = .ok (some f) ∧ Buffers s x n.table f s' := by
  obtain ⟨src, s₁, hv, hq, h⟩ := (insertSource_reads H hc n).of_ok h
  cases src with
  | none =>
    cases h
    exact Or.inl ⟨hv, hq⟩
  | some f =>
    obtain ⟨u, s₂, -, hq₂, h⟩ := (enforceUnique_reads hc hq n.table f).of_ok h
    exact Or.inr ⟨f, hv, appendFrame_of_ok hx (Quiet.trans _ _ _ hq hq₂) h⟩

theorem delete_of_ok (hc : Pristine s) (hx : s.txn = some x) {n : DeleteNode V} {m : Nat}
    (h : delete H n s = (.ok m, s')) :
    ∃ i p g, s.eng.catalog.tables.get? n.table = some i ∧ i.constraints.primaryKey = some p ∧
      targetsPure s.eng s.txn n.table n.predicate = .ok g ∧ ((g.rows = [] ∧ Quiet s s') ∨
        (∀ c ∈ p, c ∈ g.columns) ∧ ∃ s₁, Quiet s s₁ ∧ s' = { s₁ with
          txn := some (x.tombstoneAppend n.table (Frame.ofRows p g.rows) false) }) := by
  obtain ⟨i, s₁, hi, hq, h⟩ := (catalogGet_reads n.table s).of_ok h
  obtain ⟨p, s₂, hp, hq₂, h⟩ := (Reads.lift _).of_ok h
  have hq' := Quiet.trans _ _ _ hq hq₂
  obtain ⟨g, s₃, hg, hq₃, h⟩ := (targetsOf_reads hc hq' n.table n.predicate).of_ok h
  have hq'' := Quiet.trans _ _ _ hq' hq₃
  refine ⟨i, p, g, get_eq_ok.mp hi, requirePk_ok hp, hg, ?_⟩
  split at h
  · rename_i hempty
    cases h
    exact Or.inl ⟨List.isEmpty_iff.mp hempty, hq''⟩
  · obtain ⟨tomb, s₄, htomb, hq₄, h⟩ := (Reads.lift _).of_ok h
    have hq₅ := Quiet.trans _ _ _ hq'' hq₄
    obtain ⟨hsub, rfl⟩ := Frame.select_ok.mp htomb
    rw [Proc.bind_of_ok (appendTombstone_txn H (by rw [hq₅.txn, hx]) _)] at h
    cases h
    exact Or.inr ⟨hsub, s₄, hq₅, rfl⟩

end Runs

/-! ## 3. One statement against its meaning

`Replaying` is the invariant: what the transaction has in sight are the rows of the reference, and its
tombstones name the removed keys.  `Follows` is what is proved of each statement, in both directions:
the rows agree exactly when the statement fits, and if it does the invariant holds again. -/

section Steps

variable [DecidableEq V] {H : Host V} {t : String} {i : TableInfo V} {p : List String}
  {σ : Session V × Ref V} {s' : Session V} {x : Transaction V}

/-- The transaction shows the rows of the reference, and its tombstones name the removed keys. -/
structure Replaying (t : String) (i : TableInfo V) (p : List String) (σ : Session V × Ref V)
    (x : Transaction V) : Prop where
  sound : Sound σ.1.eng
  entry : σ.1.eng.catalog.tables.get? t = some i
  key : i.constraints.primaryKey = some p
  txn : σ.1.txn = some x
  shape : TxnOk σ.1.eng.catalog x
  early : x.snapshotTs < insInf
  gone : ∀ k, k ∈ keysOf p false (x.tombstoneBatchesWithFlag t) ↔ k ∈ σ.2.gone
  view : ((seen σ.1.eng (some x) t).map Prod.snd).Perm σ.2.rows

theorem agrees_iff (hs : Sound σ.1.eng) (hi : σ.1.eng.catalog.tables.get? t = some i)
    (hx : σ.1.txn = some x) (hxo : TxnOk σ.1.eng.catalog x) :
    Agrees t σ ↔ ((seen σ.1.eng (some x) t).map Prod.snd).Perm σ.2.rows := by
  have hv := visibleIn_seen hs.ok hxo hi
  constructor
  · rintro ⟨y, rows, hy, hrows, hperm⟩
    rw [hx] at hy
    cases hy
    rw [hv] at hrows
    cases hrows
    exact hperm
  · exact fun hperm => ⟨x, _, hx, hv, hperm⟩

theorem Replaying.agrees (h : Replaying t i p σ x) : Agrees t σ :=
  (agrees_iff h.sound h.entry h.txn h.shape).mpr h.view

theorem Replaying.keyCols_eq (h : Replaying t i p σ x) : keyCols i = p := by
  rw [keyCols, h.key, Option.getD_some]

/-- A statement with nothing to do. -/
theorem Replaying.quiet (h : Replaying t i p σ x) {q : Faults} (ha : q.writesBack = false)
    (hq : Quiet { σ.1 with faults := q } s') : Replaying t i p (s', σ.2) x where
  sound := Sound.quiet (s := { σ.1 with faults := q }) h.sound ha hq
  entry := by rw [hq.catalog]; exact h.entry
  key := h.key
  txn := by rw [hq.txn]; exact h.txn
  shape := by rw [hq.catalog]; exact h.shape
  early := h.early
  gone := h.gone
  view := by
    rw [seen_congr hq.catalog (by rw [hq.disk]) hq.delta]
    exact h.view

/-- **An INSERT agrees with its meaning exactly when it inserts no removed key.** -/
theorem Replaying.inserted (h : Replaying t i p σ x) {q : Faults} (ha : q.writesBack = false)
    {f : Frame V} (hb : Buffers { σ.1 with faults := q } x t f s') (hf : f.columns = i.columns) :
    (Agrees t (s', { σ.2 with rows := σ.2.rows ++ f.rows }) ↔
        ∀ r ∈ f.rows, keyOf p r ∉ σ.2.gone) ∧
      ((∀ r ∈ f.rows, keyOf p r ∉ σ.2.gone) →
        Replaying t i p (s', { σ.2 with rows := σ.2.rows ++ f.rows }) (x.bufferAppend t f)) := by
  obtain ⟨s₁, hq, rfl⟩ := hb
  have hsound : Sound s₁.eng := Sound.quiet (s := { σ.1 with faults := q }) h.sound ha hq
  have hentry : s₁.eng.catalog.tables.get? t = some i := by rw [hq.catalog]; exact h.entry
  have hshape : TxnOk s₁.eng.catalog (x.bufferAppend t f) := by
    rw [hq.catalog]
    refine ⟨fun u g hg => ?_, fun u g hg => h.shape.tomb u g hg⟩
    rw [Transaction.bufferBatches_bufferAppend] at hg
    split at hg
    · rename_i hu
      rcases List.mem_append.mp hg with hg | hg
      · rw [hu]
        exact h.shape.ins t g hg
      · rw [hu, List.mem_singleton.mp hg]
        exact ⟨i, h.entry, hf⟩
    · exact h.shape.ins u g hg
  have hview : (seen s₁.eng (some (x.bufferAppend t f)) t).map Prod.snd =
      (seen σ.1.eng (some x) t).map Prod.snd ++
        f.rows.filter fun r => decide (keyOf p r ∉ σ.2.gone) := by
    rw [seen_congr hq.catalog (by rw [hq.disk]) hq.delta,
      seen_bufferAppend h.sound.ok.delta h.early h.entry, List.map_append, List.map_map,
      h.keyCols_eq]
    simp only [Function.comp_def, List.map_id', h.gone]
  -- what is left out of the batch is what the view lacks
  have hiff : ((seen s₁.eng (some (x.bufferAppend t f)) t).map Prod.snd).Perm
      (σ.2.rows ++ f.rows) ↔ ∀ r ∈ f.rows, keyOf p r ∉ σ.2.gone := by
    rw [hview]
    constructor
    · intro hperm
      have hlen := hperm.length_eq
      have hlen₀ := h.view.length_eq
      simp only [List.length_append] at hlen
      have hall : (f.rows.filter fun r => decide (keyOf p r ∉ σ.2.gone)).length =
          f.rows.length := by omega
      intro r hr
      simpa using List.length_filter_eq_length_iff.mp hall r hr
    · intro hall
      rw [List.filter_eq_self.mpr fun r hr => by simpa using hall r hr]
      exact h.view.append_right _
  refine ⟨(agrees_iff hsound hentry rfl hshape).trans hiff, fun hall => ?_⟩
  exact ⟨hsound, hentry, h.key, rfl, hshape, h.early, h.gone, hiff.mpr hall⟩

omit [DecidableEq V] in
/-- The non-null keys of the selected rows name exactly the selected rows when these have non-null keys
and no other row has one of them. -/
theorem apart_iff {rows : List (Row V)} {sel : Row V → Bool} {ks : List (Key V)}
    (hks : ∀ k, k ∈ ks ↔ (∃ r ∈ rows, sel r = true ∧ keyOf p r = k) ∧ Key.nonNull k = true) :
    ((∀ r ∈ rows, sel r = true → Key.nonNull (keyOf p r) = true) ∧
      ∀ r ∈ rows, ∀ r' ∈ rows, sel r = true → sel r' = false → keyOf p r ≠ keyOf p r') ↔
        ∀ r ∈ rows, (keyOf p r ∉ ks ↔ sel r = false) := by
  simp only [hks]
  constructor
  · rintro ⟨hnn, hdis⟩ r hr
    constructor
    · intro hk
      by_contra hsel
      rw [Bool.not_eq_false] at hsel
      exact hk ⟨⟨r, hr, hsel, rfl⟩, hnn r hr hsel⟩
    · rintro hsel ⟨⟨r', hr', hsel', heq⟩, -⟩
      exact hdis r' hr' r hr hsel' hsel heq
  · intro hall
    have hnn : ∀ r ∈ rows, sel r = true → Key.nonNull (keyOf p r) = true := by
      intro r hr hsel
      by_contra hnull
      have := (hall r hr).mp fun hk => hnull hk.2
      rw [hsel] at this
      cases this
    refine ⟨hnn, fun r hr r' hr' hsel hsel' heq => ?_⟩
    exact (hall r' hr').mpr hsel' ⟨⟨r, hr, hsel, heq⟩, by rw [← heq]; exact hnn r hr hsel⟩

omit [DecidableEq V] in
/-- Two selections of a list are the same rows exactly when they select alike. -/
theorem filter_perm_filter {rows : List (Row V)} {a b : Row V → Bool} :
    (rows.filter a).Perm (rows.filter b) ↔ ∀ r ∈ rows, a r = b r := by
  constructor
  · intro hperm r hr
    have hmem := hperm.mem_iff (a := r)
    rw [Bool.eq_iff_iff]
    simpa [hr] using hmem
  · exact fun hall => List.Perm.of_eq (List.filter_congr hall)

/-- **A DELETE agrees with its meaning exactly when the keys it removes tell its rows apart.** -/
theorem Replaying.deleted (h : Replaying t i p σ x) (hne : p ≠ []) {q : Faults}
    (ha : q.writesBack = false) {pred : Option (Pred V)} {g : Frame V} (hg : g.rows = ((seen σ.1.eng (some x) t).map
      Prod.snd).filter (selects pred)) (hsub : ∀ c ∈ p, c ∈ i.columns) {s₁ : Session V}
    (hq : Quiet { σ.1 with faults := q } s₁)
    (hs' : s' = { s₁ with txn := some (x.tombstoneAppend t (Frame.ofRows p g.rows) false) }) :
    (Agrees t (s', ⟨σ.2.rows.filter fun r => !selects pred r,
        σ.2.gone ++ (σ.2.rows.filter (selects pred)).map (keyOf p)⟩) ↔
        Fits H p σ.1 σ.2 (.delete ⟨t, pred⟩)) ∧
      (Fits H p σ.1 σ.2 (.delete ⟨t, pred⟩) → Replaying t i p (s', ⟨σ.2.rows.filter fun r =>
        !selects pred r, σ.2.gone ++ (σ.2.rows.filter (selects pred)).map (keyOf p)⟩)
        (x.tombstoneAppend t (Frame.ofRows p g.rows) false)) := by
  subst hs'
  have hsound : Sound s₁.eng := Sound.quiet (s := { σ.1 with faults := q }) h.sound ha hq
  have hentry : s₁.eng.catalog.tables.get? t = some i := by rw [hq.catalog]; exact h.entry
  have hshape : TxnOk s₁.eng.catalog (x.tombstoneAppend t (Frame.ofRows p g.rows) false) := by
    rw [hq.catalog]
    refine ⟨fun u f hf => h.shape.ins u f hf, fun u f hf => ?_⟩
    rw [Transaction.tombstoneBatches_tombstoneAppend] at hf
    split at hf
    · rename_i hu
      rcases List.mem_append.mp hf with hf | hf
      · rw [hu]
        exact h.shape.tomb t f hf
      · rw [hu, List.mem_singleton.mp hf]
        exact ⟨i, p, h.entry, h.key, hne, hsub, rfl⟩
    · exact h.shape.tomb u f hf
  -- the keys the tombstone names, read off the reference
  have hkeys : ∀ k, k ∈ ((Frame.ofRows p g.rows).rows.map (keyOf p)).filter Key.nonNull ↔
      (∃ r ∈ σ.2.rows, selects pred r = true ∧ keyOf p r = k) ∧ Key.nonNull k = true := by
    intro k
    rw [List.mem_filter, Frame.ofRows_rows, List.map_map, hg]
    simp only [List.mem_map, List.mem_filter, Function.comp_apply,
      keyOf_restrict fun (c : String) (hc : c ∈ p) => hc]
    have hmem : ∀ r, (∃ y ∈ seen σ.1.eng (some x) t, y.2 = r) ↔ r ∈ σ.2.rows := by
      intro r
      rw [← h.view.mem_iff, List.mem_map]
    simp only [hmem, and_assoc]
  have hview : ((seen s₁.eng (some (x.tombstoneAppend t (Frame.ofRows p g.rows) false)) t).map
      Prod.snd).Perm (σ.2.rows.filter fun r => decide (keyOf p r ∉
        ((Frame.ofRows p g.rows).rows.map (keyOf p)).filter Key.nonNull)) := by
    rw [seen_congr hq.catalog (by rw [hq.disk]) hq.delta,
      seen_tombstoneAppend h.sound.ok.delta h.early h.entry, h.keyCols_eq]
    generalize ((Frame.ofRows p g.rows).rows.map (keyOf p)).filter Key.nonNull = ks
    refine List.Perm.trans (List.Perm.of_eq ?_) (h.view.filter _)
    rw [List.filter_map]
    rfl
  have hiff : ((seen s₁.eng (some (x.tombstoneAppend t (Frame.ofRows p g.rows) false)) t).map
      Prod.snd).Perm (σ.2.rows.filter fun r => !selects pred r) ↔
        Fits H p σ.1 σ.2 (.delete ⟨t, pred⟩) := by
    rw [Fits, apart_iff hkeys]
    refine ⟨fun hperm => ?_, fun hall => hview.trans ?_⟩
    · intro r hr
      have := filter_perm_filter.mp (hview.symm.trans hperm) r hr
      rw [Bool.eq_iff_iff, decide_eq_true_eq, Bool.not_eq_true'] at this
      exact this
    · refine filter_perm_filter.mpr fun r hr => ?_
      rw [Bool.eq_iff_iff, decide_eq_true_eq, hall r hr, Bool.not_eq_true']
  refine ⟨(agrees_iff hsound hentry rfl hshape).trans hiff, fun hall => ?_⟩
  refine ⟨hsound, hentry, h.key, rfl, hshape, h.early, fun k => ?_, hiff.mpr hall⟩
  have htomb : (x.tombstoneAppend t (Frame.ofRows p g.rows) false).tombstoneBatchesWithFlag t =
      x.tombstoneBatchesWithFlag t ++ [(Frame.ofRows p g.rows, false)] := by
    simp
  rw [htomb, (keysOf_snoc p _ _).1, List.mem_append, List.mem_append, h.gone, hkeys, List.mem_map]
  simp only [List.mem_filter]
  constructor
  · rintro (hk | ⟨⟨r, hr, hsel, rfl⟩, -⟩)
    · exact Or.inl hk
    · exact Or.inr ⟨r, ⟨hr, hsel⟩, rfl⟩
  · rintro (hk | ⟨r, ⟨hr, hsel⟩, rfl⟩)
    · exact Or.inl hk
    · exact Or.inr ⟨⟨r, hr, hsel, rfl⟩, hall.1 r hr hsel⟩

omit [DecidableEq V] in
theorem masked_rows {pred : Option (Pred V)} {f g : Frame V} (h : masked pred f = .ok g) :
    g.columns = f.columns ∧ g.rows = f.rows.filter (selects pred) := by
  cases pred with
  | none =>
    cases h
    refine ⟨rfl, (List.filter_eq_self.mpr fun r _ => rfl).symm⟩
  | some q =>
    unfold masked Expr.eval at h
    cases hc : q.check f with
    | error y => simp only [hc, bind, Except.bind] at h; cases h
    | ok u =>
      simp only [hc, bind, Except.bind] at h
      cases h
      exact ⟨rfl, rfl⟩

/-- The rows a DELETE selected among the rows of its transaction. -/
theorem Replaying.targets (h : Replaying t i p σ x) {pred : Option (Pred V)} {g : Frame V}
    (hg : targetsPure σ.1.eng σ.1.txn t pred = .ok g) : g.columns = i.columns ∧
      g.rows = ((seen σ.1.eng (some x) t).map Prod.snd).filter (selects pred) := by
  obtain ⟨f, hf, hfc, hfr⟩ := look_seen h.sound.ok (x := some x)
    (by intro y hy; cases hy; exact h.shape) h.entry
  rw [targetsPure, h.txn, hf] at hg
  obtain ⟨hc, hr⟩ := masked_rows hg
  rw [hc, hr, hfc, hfr]
  exact ⟨rfl, rfl⟩

/-- After the statement `st` the rows are those of its meaning exactly when it fits, and then the argument
goes on. -/
def Follows (H : Host V) (t : String) (i : TableInfo V) (p : List String) (σ : Session V × Ref V)
    (x : Transaction V) (st : Stmt V) (s' : Session V) : Prop :=
  (Agrees t (s', refStep H p σ.1 σ.2 st) ↔ Fits H p σ.1 σ.2 st) ∧
    (Fits H p σ.1 σ.2 st → ∃ x', Replaying t i p (s', refStep H p σ.1 σ.2 st) x' ∧
      x'.snapshotTs = x.snapshotTs)

section Statements

variable {q : Faults} {st : Stmt V} {m : Nat}

/-- A statement with nothing to do fits and changes nothing. -/
theorem Replaying.nothing (h : Replaying t i p σ x) (ha : q.writesBack = false)
    (hq : Quiet { σ.1 with faults := q } s') (href : refStep H p σ.1 σ.2 st = σ.2)
    (hfits : Fits H p σ.1 σ.2 st) : Follows H t i p σ x st s' := by
  rw [Follows, href]
  exact ⟨⟨fun _ => hfits, fun _ => (h.quiet ha hq).agrees⟩, fun _ => ⟨x, h.quiet ha hq, rfl⟩⟩

/-- A batch was appended. -/
theorem Replaying.batch (h : Replaying t i p σ x) (ha : q.writesBack = false) {f : Frame V}
    (hadd : added H σ.1 st = f.rows) (hnd : ∀ n, st ≠ .delete n)
    (hb : Buffers { σ.1 with faults := q } x t f s') (hf : f.columns = i.columns) :
    Follows H t i p σ x st s' := by
  have href : refStep H p σ.1 σ.2 st = { σ.2 with rows := σ.2.rows ++ f.rows } := by
    rw [← hadd]
    cases st <;> first | rfl | exact absurd rfl (hnd _)
  have hfits : Fits H p σ.1 σ.2 st ↔ ∀ r ∈ f.rows, keyOf p r ∉ σ.2.gone := by
    rw [← hadd]
    cases st <;> first | rfl | exact absurd rfl (hnd _)
  obtain ⟨h1, h2⟩ := h.inserted ha hb hf
  rw [Follows, href, hfits]
  exact ⟨h1, fun hall => ⟨_, h2 hall, rfl⟩⟩

/-- The table of the transaction has one entry. -/
theorem Replaying.entry_unique (h : Replaying t i p σ x) {j : TableInfo V}
    (hj : σ.1.eng.catalog.tables.get? t = some j) : j = i :=
  Option.some.inj (hj.symm.trans h.entry)

/-- The session of a statement of the transaction is pristine. -/
theorem Replaying.pristine (h : Replaying t i p σ x) (ha : q.writesBack = false) :
    Pristine ({ σ.1 with faults := q } : Session V) := ⟨h.sound.ok.coherent, ha⟩

theorem Replaying.insert (h : Replaying t i p σ x) (ha : q.writesBack = false) {n : InsertNode V}
    (ht : n.table = t) (hm : insert H n { σ.1 with faults := q } = (.ok m, s')) :
    Follows H t i p σ x (.insert n) s' := by
  obtain ⟨f, hf, hb⟩ := insert_of_ok (h.pristine ha) h.txn hm
  obtain ⟨j, hj, hfc, -⟩ := batchPure_ok H hf
  rw [ht] at hb hj
  rw [h.entry_unique hj] at hfc
  refine h.batch ha ?_ (by simp) hb hfc
  simp only [added]
  rw [hf]

theorem Replaying.insertSelect (h : Replaying t i p σ x) (ha : q.writesBack = false)
    {n : InsertSelectNode V} (ht : n.table = t)
    (hm : insertSelect H n { σ.1 with faults := q } = (.ok m, s')) :
    Follows H t i p σ x (.insertSelect n) s' := by
  rcases insertSelect_of_ok (h.pristine ha) h.txn hm with ⟨hsrc, hq⟩ | ⟨f, hsrc, hb⟩
  · have hadd : added H σ.1 (.insertSelect n) = [] := by
      simp only [added]
      rw [hsrc]
    refine h.nothing ha hq ?_ ?_
    · simp only [refStep, hadd, List.append_nil]
    · simp only [Fits, hadd]
      intro r hr
      cases hr
  · obtain ⟨j, hj, hfc, -⟩ := sourcePure_ok H hsrc
    rw [ht] at hb hj
    rw [h.entry_unique hj] at hfc
    refine h.batch ha ?_ (by simp) hb hfc
    simp only [added]
    rw [hsrc]

theorem Replaying.delete (h : Replaying t i p σ x) (hne : p ≠ []) (ha : q.writesBack = false)
    {pred : Option (Pred V)} (hm : delete H ⟨t, pred⟩ { σ.1 with faults := q } = (.ok m, s')) :
    Follows H t i p σ x (.delete ⟨t, pred⟩) s' := by
  obtain ⟨j, p', g, hj, hp', hg, hcase⟩ := delete_of_ok (h.pristine ha) h.txn hm
  rw [h.entry_unique hj, h.key] at hp'
  cases hp'
  obtain ⟨hgc, hgr⟩ := h.targets hg
  rcases hcase with ⟨hempty, hq⟩ | ⟨hsub, s₂, hq, hs'⟩
  · have hnone : ∀ r ∈ σ.2.rows, selects pred r = false := by
      intro r hr
      rw [hgr, List.filter_eq_nil_iff] at hempty
      have := hempty r (h.view.mem_iff.mpr hr)
      simpa using this
    refine h.nothing ha hq ?_ ?_
    · have h1 : σ.2.rows.filter (selects pred) = [] :=
        List.filter_eq_nil_iff.mpr fun r hr => by simp [hnone r hr]
      have h2 : σ.2.rows.filter (fun r => !selects pred r) = σ.2.rows :=
        List.filter_eq_self.mpr fun r hr => by simp [hnone r hr]
      simp only [refStep, h1, h2, List.map_nil, List.append_nil]
    · refine ⟨fun r hr hsel => ?_, fun r hr r' _ hsel _ => ?_⟩
      · rw [hnone r hr] at hsel
        cases hsel
      · rw [hnone r hr] at hsel
        cases hsel
  · obtain ⟨h1, h2⟩ := h.deleted (H := H) hne ha hgr (fun c hc => by rw [← hgc]; exact hsub c hc)
      hq hs'
    exact ⟨h1, fun hall => ⟨_, h2 hall, rfl⟩⟩

end Statements

/-- **One statement**: its rows are the rows of its meaning exactly when it fits, and then the
argument goes on. -/
theorem Replaying.step (h : Replaying t i p σ x) (hne : p ≠ []) {a : Stmt V × Faults}
    (ha : Succeeds H t σ a) :
    (Agrees t (replayStep H p σ a) ↔ Fits H p σ.1 σ.2 a.1) ∧
      (Fits H p σ.1 σ.2 a.1 → ∃ x', Replaying t i p (replayStep H p σ a) x' ∧
        x'.snapshotTs = x.snapshotTs) := by
  obtain ⟨st, q⟩ := a
  obtain ⟨ht, halone, r, hr⟩ := ha
  simp only at halone
  rcases hrun : sql H st { σ.1 with faults := q } with ⟨r', s'⟩
  simp only at hr
  rw [hrun] at hr
  simp only at hr
  subst hr
  have hstep : replayStep H p σ (st, q) = (s', refStep H p σ.1 σ.2 st) := by
    rw [replayStep, hrun]
  rw [hstep]
  cases st with
  | insert n =>
    obtain ⟨m, s₁, hm, hret⟩ := Proc.bind_ok.mp hrun
    cases hret
    exact h.insert halone ht hm
  | insertSelect n =>
    obtain ⟨m, s₁, hm, hret⟩ := Proc.bind_ok.mp hrun
    cases hret
    exact h.insertSelect halone ht hm
  | delete n =>
    obtain ⟨tbl, pred⟩ := n
    have htable : tbl = t := ht
    subst htable
    obtain ⟨m, s₁, hm, hret⟩ := Proc.bind_ok.mp hrun
    cases hret
    exact h.delete hne halone hm
  | _ => exact ht.elim

/-! ## 4. The whole transaction -/

/-- **The statements of a transaction**: the view agrees with the reference after each of them
exactly when each of them fits. -/
theorem Replaying.run (hne : p ≠ []) : ∀ {l : List (Stmt V × Faults)} {σ : Session V × Ref V}
    {x : Transaction V}, Replaying t i p σ x →
    Run.Along (replayStep H p) (Succeeds H t) σ l →
    ((∀ l', l' <+: l → Agrees t (Run.run (replayStep H p) σ l')) ↔
        Run.Along (replayStep H p) (fun σ a => Fits H p σ.1 σ.2 a.1) σ l) ∧
      (Run.Along (replayStep H p) (fun σ a => Fits H p σ.1 σ.2 a.1) σ l →
        ∃ x', Replaying t i p (Run.run (replayStep H p) σ l) x' ∧ x'.snapshotTs = x.snapshotTs)
  | [], σ, x, h, _ => by
    refine ⟨⟨fun _ => trivial, fun _ l' hl' => ?_⟩, fun _ => ⟨x, h, rfl⟩⟩
    rw [List.prefix_nil.mp hl']
    exact h.agrees
  | a :: l, σ, x, h, hl => by
    obtain ⟨hiff, hnext⟩ := h.step hne hl.1
    constructor
    · constructor
      · intro hall
        have hfits := hiff.mp (hall [a] (by simp))
        obtain ⟨x', h', -⟩ := hnext hfits
        refine ⟨hfits, (Replaying.run hne h' hl.2).1.mp fun l' hl' => ?_⟩
        exact hall (a :: l') (List.cons_prefix_cons.mpr ⟨rfl, hl'⟩)
      · rintro ⟨hfits, hrest⟩ l' hl'
        obtain ⟨x', h', -⟩ := hnext hfits
        rcases List.prefix_cons_iff.mp hl' with rfl | ⟨l'', rfl, hl''⟩
        · exact h.agrees
        · exact (Replaying.run hne h' hl.2).1.mpr hrest l'' hl''
    · rintro ⟨hfits, hrest⟩
      obtain ⟨x', h', hts⟩ := hnext hfits
      obtain ⟨x'', h'', hts'⟩ := (Replaying.run hne h' hl.2).2 hrest
      exact ⟨x'', h'', hts'.trans hts⟩

/-- The rows of an overlay do not depend on the timestamp its own rows get. -/
theorem overlay_rows (key : List String) (x : Transaction V) (t : String) (ts ts' : Int)
    (rows : List (Int × Row V)) : (overlay key x t ts rows).map Prod.snd =
      (overlay key x t ts' rows).map Prod.snd := by
  rw [overlay_map, overlay_map]

/-- COMMIT shows everybody what the transaction saw, if nobody else committed. -/
theorem Replaying.committed (h : Replaying t i p σ x) (hnow : x.snapshotTs = σ.1.eng.commitTs)
    {q : Faults} {r : Result V} (hok : (sql H .commit { σ.1 with faults := q }).1 = .ok r) :
    ∃ rows, visible (sql H .commit { σ.1 with faults := q }).2.eng t = .ok rows ∧
      rows.Perm σ.2.rows := by
  have hx : ({ σ.1 with faults := q } : Session V).txn = some x := h.txn
  obtain ⟨e', hrun, hcom, hcache, hsnap⟩ := sql_commit_ok hx hok
  rw [hrun]
  have hcar := commitBatches_carries H x
  have hco : Coherent e' := h.sound.ok.coherent.committed hcom hcache
  have hsound := h.sound.commit hcom hcar h.shape hco hsnap
  have hentry : e'.catalog.tables.get? t = some i := by rw [hcom.catalog]; exact h.entry
  refine ⟨_, visible_seen hsound.ok hentry, ?_⟩
  have hown : (seen σ.1.eng (some x) t).map Prod.snd =
      (overlay (keyCols i) x t (σ.1.eng.commitTs + 1) (seen σ.1.eng none t)).map Prod.snd := by
    rw [seen_txn h.sound.ok.delta x h.early h.entry, hnow, seen_now h.sound.ok.delta]
    exact overlay_rows _ _ _ _ _ _
  rw [seen_commit h.sound.ok.delta h.sound.counter hcom hcar h.entry, ← hown]
  exact h.view

/-- **A transaction replays its statements exactly when they fit.**  `s` is a session right after
BEGIN, with the snapshot `ts`; `l` is a sequence of INSERT and DELETE statements on `t` that
succeed.  The rows of `t` in the transaction after each statement, and for everybody after a COMMIT
to which nobody else's commit came in between, are those of the statements applied one after another
to the rows of the snapshot, if and only if every statement fits.  The session stays plain, so that what
is read is what was written: `_merge_delta` would cast a value that does not fit its column. -/
theorem transaction_replays (M : Merger V) {s : Session V} (hs : Sound s.eng) {ts : Int}
    (hts : ts < insInf) (hx : s.txn = some { snapshotTs := ts })
    (hi : s.eng.catalog.tables.get? t = some i) (hp : i.constraints.primaryKey = some p)
    (hne : p ≠ []) {rows : List (Row V)} (hrows : visibleIn s.eng { snapshotTs := ts } t = .ok rows)
    {l : List (Stmt V × Faults)}
    (hl : Run.Along (replayStep H p) (fun σ a => Succeeds H t σ a ∧
      Session.StaysPlain M σ.1 (replayStep H p σ a).1) (s, ⟨rows, []⟩) l) :
    ((∀ l', l' <+: l → Agrees t (Run.run (replayStep H p) (s, ⟨rows, []⟩) l')) ∧
      ∀ q r, ts = (Run.run (replayStep H p) (s, ⟨rows, []⟩) l).1.eng.commitTs →
        (sql H .commit { (Run.run (replayStep H p) (s, ⟨rows, []⟩) l).1 with faults := q }).1 =
          .ok r →
        ∃ after, visible (sql H .commit { (Run.run (replayStep H p) (s, ⟨rows, []⟩) l).1 with
            faults := q }).2.eng t = .ok after ∧
          after.Perm (Run.run (replayStep H p) (s, ⟨rows, []⟩) l).2.rows) ↔
      Run.Along (replayStep H p) (fun σ a => Fits H p σ.1 σ.2 a.1) (s, ⟨rows, []⟩) l := by
  have hshape : TxnOk s.eng.catalog { snapshotTs := ts } := TxnOk.new _ _
  have h : Replaying t i p (s, ⟨rows, []⟩) { snapshotTs := ts } := by
    refine ⟨hs, hi, hp, hx, hshape, hts, by simp [keysOf], ?_⟩
    rw [visibleIn_seen hs.ok hshape hi] at hrows
    cases hrows
    exact List.Perm.refl _
  obtain ⟨hiff, hend⟩ := Replaying.run hne h (hl.mono fun _ _ ha => ha.1)
  constructor
  · exact fun hall => hiff.mp hall.1
  · intro hfits
    obtain ⟨x', h', hts'⟩ := hend hfits
    exact ⟨hiff.mpr hfits, fun q r hnow hok => h'.committed (by rw [hts', ← hnow]) hok⟩

end Steps

/-! ## 5. A key deleted and inserted again -/

/-- The engine right after `INSERT INTO t VALUES (1)`. -/
@[irreducible] def inserted : World Nat :=
  Run.run (World.step natHost) started [.sql 0 (insertKey "t" 1) {}]

/-- A transaction that begins now. -/
def begun : Session Nat := ⟨inserted.eng, some { snapshotTs := 1 }, {}⟩

/-- The rows it starts from. -/
def begunRows : List (Row Nat) :=
  (visibleIn inserted.eng { snapshotTs := 1 } "t").toOption.getD []

theorem begun_sound : Sound begun.eng := by
  have hrun : World.Settled inserted := by
    unfold inserted
    exact World.settled_run started_settled (by simp [World.Live, Step.LeavesCache])
  exact hrun.eng

theorem eq_ok_of_toBool {α : Type} {r : Except DbError α} (h : r.toBool = true) (d : α) :
    r = .ok (r.toOption.getD d) := by
  cases r with
  | ok a => rfl
  | error y => cases h

/-- `DELETE FROM t; INSERT INTO t VALUES (1)`. -/
def deleteInsert : List (Stmt Nat × Faults) := [(deleteAll "t", {}), (insertKey "t" 1, {})]

/-- The transaction after `deleteInsert`, with the reference. -/
def vanished : Session Nat × Ref Nat :=
  Run.run (replayStep natHost ["k"]) (begun, ⟨begunRows, []⟩) deleteInsert

set_option maxRecDepth 10000 in
theorem deleteInsert_succeeds :
    Run.Along (replayStep natHost ["k"]) (Succeeds natHost "t") (begun, ⟨begunRows, []⟩)
      deleteInsert := by
  have h1 : (sql natHost (deleteAll "t") { begun with faults := {} }).1.toBool = true := by
    with_unfolding_all decide
  have h2 : (sql natHost (insertKey "t" 1) { (replayStep natHost ["k"] (begun, ⟨begunRows, []⟩)
      (deleteAll "t", {})).1 with faults := {} }).1.toBool = true := by
    with_unfolding_all decide
  exact ⟨⟨rfl, rfl, exists_of_toBool h1⟩, ⟨rfl, rfl, exists_of_toBool h2⟩, trivial⟩

set_option maxRecDepth 10000 in
/-- Both statements succeed in that transaction, and the row is not there. -/
theorem delete_insert_vanishes :
    Run.Along (replayStep natHost ["k"]) (Succeeds natHost "t") (begun, ⟨begunRows, []⟩)
        deleteInsert ∧
      ¬ ∀ l', l' <+: deleteInsert →
        Agrees "t" (Run.run (replayStep natHost ["k"]) (begun, ⟨begunRows, []⟩) l') := by
  refine ⟨deleteInsert_succeeds, fun hall => ?_⟩
  obtain ⟨x, rows, hx, hrows, hperm⟩ := hall _ (List.prefix_refl _)
  have hview : (vanished.1.txn.map fun y => (visibleIn vanished.1.eng y "t").map List.length) =
      some (.ok 0) := by with_unfolding_all decide
  have href : vanished.2.rows.length = 1 := by with_unfolding_all decide
  have hx' : vanished.1.txn = some x := hx
  have hrows' : visibleIn vanished.1.eng x "t" = .ok rows := hrows
  have hlen : rows.length = vanished.2.rows.length := hperm.length_eq
  rw [hx', Option.map_some, hrows'] at hview
  have h0 : rows.length = 0 := Except.ok.inj (Option.some.inj hview)
  omega

set_option maxRecDepth 10000 in
/-- `INSERT INTO t VALUES (2); DELETE FROM t` in that transaction is replayed. -/
theorem transaction_replays_insert_delete : begunRows.length = 1 ∧
    ∀ l', l' <+: [(insertKey "t" 2, {}), (deleteAll "t", {})] →
      Agrees "t" (Run.run (replayStep natHost ["k"]) (begun, ⟨begunRows, []⟩) l') := by
  refine ⟨by with_unfolding_all decide, ?_⟩
  have hkey : (begun.eng.catalog.tables.get? "t").map (fun i => i.constraints.primaryKey) =
      some (some ["k"]) := by with_unfolding_all decide
  obtain ⟨i, hi, hp⟩ := Option.map_eq_some_iff.mp hkey
  have hread : (visibleIn inserted.eng { snapshotTs := 1 } "t").toBool = true := by
    with_unfolding_all decide
  have h1 : (sql natHost (insertKey "t" 2) { begun with faults := {} }).1.toBool = true := by
    with_unfolding_all decide
  have h2 : (sql natHost (deleteAll "t") { (replayStep natHost ["k"] (begun, ⟨begunRows, []⟩)
      (insertKey "t" 2, {})).1 with faults := {} }).1.toBool = true := by
    with_unfolding_all decide
  have hkeys : (replayStep natHost ["k"] (begun, ⟨begunRows, []⟩)
      (insertKey "t" 2, {})).2.rows.all (fun r => Key.nonNull (keyOf ["k"] r)) = true := by
    with_unfolding_all decide
  have hplain : ∀ n < 3, (Run.run (replayStep natHost ["k"]) (begun, ⟨begunRows, []⟩)
      ([(insertKey "t" 2, {}), (deleteAll "t", {})].take n)).1.Plain natMerger := by
    intro n hn
    refine Session.plain_natMerger ?_
    revert n
    with_unfolding_all decide
  have hl : Run.Along (replayStep natHost ["k"]) (fun σ a => Succeeds natHost "t" σ a ∧
      Session.StaysPlain natMerger σ.1 (replayStep natHost ["k"] σ a).1) (begun, ⟨begunRows, []⟩)
        [(insertKey "t" 2, {}), (deleteAll "t", {})] :=
    ⟨⟨⟨rfl, rfl, exists_of_toBool h1⟩, hplain 0 (by decide), hplain 1 (by decide)⟩,
      ⟨⟨rfl, rfl, exists_of_toBool h2⟩, hplain 1 (by decide), hplain 2 (by decide)⟩, trivial⟩
  refine ((transaction_replays natMerger begun_sound (by decide) rfl hi hp (by decide) (eq_ok_of_toBool hread [])
    hl).mpr ?_).1
  refine ⟨fun r _ => List.not_mem_nil, ⟨fun r hr _ => List.all_eq_true.mp hkeys r hr, ?_⟩, trivial⟩
  intro r _ r' _ _ hsel
  cases hsel

end RyuDB.Engine
