/-
# A write statement that raises has done nothing

INSERT, DELETE, UPDATE and MERGE read first and write last, and the one write they make is either a
change of the transaction's buffer, which cannot raise, or `_write_commit`, which takes a timestamp,
appends to the log and only then touches the delta.  UPDATE and MERGE put an implicit transaction
into the slot on the way and take it out again on any exception.

So a write statement that raises leaves the session `Unharmed`: delta, buffer, slot, catalog and
files are the same, the log has the same bytes, and at most the counter has moved.  This asks nothing
of the state, not even a right cache; it asks that a failed append is truncated back
(`write_unharmed`).

What a read finds is another matter.  A read takes the cached frame of a table if there is one, and
the query of an INSERT .. SELECT has run before the insert is refused: an aggregate in it may have
written its keys and its `__cnt` into that frame.  So the part of `Unharmed` about reads asks that the
statement writes nothing back (`writesBack`), and `insertSelect_writes_back` shows that it has to.

The rest is about runs.

* `Trail` is a relation along which sessions move whatever a statement does, restores apart; the fields
  are what a statement is made of, so a relation is followed by every statement once it is shown to
  contain them (`Trail.sql`).
* `recovery`: from a fresh log, with faults that spare the log, a restart rebuilds the delta at every
  point of a run, whatever the aggregates have done to the cache.
* `write_all_or_nothing` puts a refused statement in front of such a run.
-/
import RyuDB.Recovery

namespace RyuDB

variable {V : Type}

/-- The statement is an INSERT, a DELETE, an UPDATE or a MERGE. -/
def Stmt.writes : Stmt V → Bool
  | .insert _ => true
  | .insertSelect _ => true
  | .delete _ => true
  | .update _ => true
  | .merge _ => true
  | _ => false

/-- The table such a statement writes. -/
def Stmt.written : Stmt V → Option String
  | .insert n => some n.table
  | .insertSelect n => some n.table
  | .delete n => some n.table
  | .update n => some n.table
  | .merge n => some n.table
  | _ => none

theorem Stmt.writes_eq (st : Stmt V) : st.writes = st.written.isSome := by
  cases st <;> rfl

namespace Engine

/-! ## 1. Reading code moves nothing -/

section Keeps

variable [DecidableEq V] (H : Host V)

omit [DecidableEq V] in
theorem keeps_catalogGet (t : String) : Proc.Keeps Quiet (catalogGet t : Op V (TableInfo V)) :=
  fun s => (catalogGet_reads t s).quiet

theorem keeps_scan (t : String) (columns : Option (List String)) :
    Proc.Keeps Quiet (scan t columns : Op V (Frame V)) := fun s => (scan_glances t columns s).quiet

omit [DecidableEq V] in
/-- An aggregate writes into cached frames and into nothing else. -/
theorem keeps_writeBack (q : Query V) : Proc.Keeps Quiet (writeBack q) := by
  intro s
  unfold writeBack
  rw [Proc.modify_apply]
  split
  · rename_i hw
    exact ⟨rfl, rfl, rfl, rfl, rfl, rfl, rfl, rfl, rfl, id,
      fun hc => absurd hw (by rw [hc.alone]; exact Bool.false_ne_true),
      fun h0 => absurd hw (by rw [h0]; exact Bool.false_ne_true)⟩
  · exact Quiet.refl s

theorem keeps_exec (q : Query V) : Proc.Keeps Quiet (exec q) := by
  refine Proc.Keeps.bind Quiet.trans (fun s => (checkCancel_reads s).quiet) fun _ => ?_
  refine Proc.Keeps.bind Quiet.trans
    (Proc.Keeps.collect Quiet.refl Quiet.trans (fun r : String × Option (List String) =>
      keeps_scan r.1 r.2) _) fun _ => ?_
  exact Proc.Keeps.bind Quiet.trans (keeps_writeBack q) fun _ => Proc.Keeps.lift Quiet.refl _

theorem keeps_enforceKey (t : String) (f : Frame V) (key : List String) :
    Proc.Keeps Quiet (enforceKey t f key) := by
  refine Proc.Keeps.bind Quiet.trans (Proc.Keeps.lift Quiet.refl _) fun new => ?_
  split
  · exact Proc.Keeps.raise Quiet.refl _
  · refine Proc.Keeps.bind Quiet.trans (keeps_scan t (some key)) fun rows => ?_
    refine Proc.Keeps.bind Quiet.trans (Proc.Keeps.lift Quiet.refl _) fun existing => ?_
    split
    · exact Proc.Keeps.pure Quiet.refl _
    · split
      · exact Proc.Keeps.raise Quiet.refl _
      · simp only
        split
        · exact Proc.Keeps.raise Quiet.refl _
        · exact Proc.Keeps.pure Quiet.refl _

theorem keeps_enforceUnique (t : String) (f : Frame V) : Proc.Keeps Quiet (enforceUnique t f) :=
  Proc.Keeps.bind Quiet.trans (keeps_catalogGet t) fun _ =>
    Proc.Keeps.each Quiet.refl Quiet.trans (keeps_enforceKey t f) _

omit [DecidableEq V] in
theorem keeps_insertBatch (n : InsertNode V) : Proc.Keeps Quiet (insertBatch H n) :=
  Proc.Keeps.bind Quiet.trans (keeps_catalogGet n.table) fun _ => Proc.Keeps.lift Quiet.refl _

theorem keeps_insertSource (n : InsertSelectNode V) : Proc.Keeps Quiet (insertSource H n) := by
  refine Proc.Keeps.bind Quiet.trans (keeps_catalogGet n.table) fun i => ?_
  refine Proc.Keeps.bind Quiet.trans (Proc.Keeps.lift Quiet.refl _) fun cols => ?_
  refine Proc.Keeps.bind Quiet.trans (keeps_exec n.source) fun src => ?_
  split
  · exact Proc.Keeps.pure Quiet.refl _
  · split
    · exact Proc.Keeps.raise Quiet.refl _
    · exact Proc.Keeps.bind Quiet.trans (Proc.Keeps.lift Quiet.refl _) fun f =>
        Proc.Keeps.pure Quiet.refl _

theorem keeps_targetsOf (t : String) (p : Option (Pred V)) : Proc.Keeps Quiet (targetsOf t p) :=
  Proc.Keeps.bind Quiet.trans (keeps_scan t none) fun _ => Proc.Keeps.lift Quiet.refl _

omit [DecidableEq V] in
theorem keeps_refuseInTxn (statement : String) :
    Proc.Keeps Quiet (refuseInTxn statement : Op V Unit) := by
  intro s
  rw [refuseInTxn, Proc.get_bind]
  cases s.txn <;> exact Quiet.refl s

end Keeps

/-! ## 2. The shape of a write statement -/

/-- A property that reading code has, and that code with it keeps behind reading code and in front of
the computation of an answer. -/
structure Closed (Q : ∀ {α : Type}, Op V α → Prop) : Prop where
  read : ∀ {α : Type} {x : Op V α}, Proc.Keeps Quiet x → Q x
  bind : ∀ {α β : Type} {x : Op V α} {f : α → Op V β}, Proc.Keeps Quiet x → (∀ a, Q (f a)) →
    Q (x >>= f)
  map : ∀ {α β : Type} {x : Op V α} (f : α → β), Q x → Q (do let a ← x; return f a : Op V β)

/-- The writes of INSERT and DELETE to `t` have `Q`.  Those of UPDATE and MERGE stand behind the check
that no transaction is open, where `Out` is enough. -/
structure Shaped [DecidableEq V] (H : Host V) (t : String) (Q Out : ∀ {α : Type}, Op V α → Prop) :
    Prop where
  closed : Closed Q
  closedOut : Closed Out
  refuse : ∀ {α : Type} (statement : String) {f : Unit → Op V α}, Out (f ()) →
    Q (refuseInTxn statement >>= f)
  appendFrame : ∀ f, Q (appendFrame H t f)
  appendTombstone : ∀ g, Q (appendTombstone H t g)
  flush : ∀ w, Out (flush H t w)

namespace Shaped

variable [DecidableEq V] {H : Host V} {t : String} {Q Out : ∀ {α : Type}, Op V α → Prop}

theorem insert {n : InsertNode V} (h : Shaped H n.table Q Out) : Q (insert H n) := by
  refine h.closed.bind (keeps_insertBatch H n) fun f => ?_
  refine h.closed.bind (keeps_enforceUnique n.table f) fun _ => ?_
  exact h.closed.map _ (h.appendFrame f)

theorem insertSelect {n : InsertSelectNode V} (h : Shaped H n.table Q Out) : Q (insertSelect H n) := by
  refine h.closed.bind (keeps_insertSource H n) fun source => ?_
  cases source with
  | none => exact h.closed.read (Proc.Keeps.pure Quiet.refl _)
  | some f =>
    refine h.closed.bind (keeps_enforceUnique n.table f) fun _ => ?_
    exact h.closed.map _ (h.appendFrame f)

theorem delete {n : DeleteNode V} (h : Shaped H n.table Q Out) : Q (delete H n) := by
  refine h.closed.bind (keeps_catalogGet n.table) fun i => ?_
  refine h.closed.bind (Proc.Keeps.lift Quiet.refl _) fun pk => ?_
  refine h.closed.bind (keeps_targetsOf n.table n.predicate) fun targets => ?_
  split
  · exact h.closed.read (Proc.Keeps.pure Quiet.refl _)
  · refine h.closed.bind (Proc.Keeps.lift Quiet.refl _) fun g => ?_
    exact h.closed.map _ (h.appendTombstone g)

theorem update {n : UpdateNode V} (h : Shaped H n.table Q Out) : Q (update H n) := by
  refine h.closed.bind (keeps_catalogGet n.table) fun i => ?_
  refine h.closed.bind (Proc.Keeps.lift Quiet.refl _) fun pk => ?_
  refine h.refuse "UPDATE" ?_
  refine h.closedOut.bind (Proc.Keeps.lift Quiet.refl _) fun _ => ?_
  refine h.closedOut.bind (keeps_targetsOf n.table n.predicate) fun targets => ?_
  split
  · exact h.closedOut.read (Proc.Keeps.pure Quiet.refl _)
  · refine h.closedOut.bind (Proc.Keeps.lift Quiet.refl _) fun f => ?_
    refine h.closedOut.bind (Proc.Keeps.lift Quiet.refl _) fun g => ?_
    exact h.closedOut.map _ (h.flush _)

theorem merge {n : MergeNode V} (h : Shaped H n.table Q Out) : Q (merge H n) := by
  refine h.closed.bind (keeps_catalogGet n.table) fun i => ?_
  refine h.closed.bind (Proc.Keeps.lift Quiet.refl _) fun _ => ?_
  refine h.refuse "MERGE" ?_
  refine h.closedOut.bind (keeps_scan n.table none) fun tgt => ?_
  refine h.closedOut.bind (keeps_exec n.source) fun src => ?_
  refine h.closedOut.bind (Proc.Keeps.lift Quiet.refl _) fun w => ?_
  split
  · exact h.closedOut.read (Proc.Keeps.pure Quiet.refl _)
  · exact h.closedOut.map _ (h.flush _)

/-- **A write statement has the property of the writes to its table.** -/
theorem sql (h : Shaped H t Q Out) {st : Stmt V} (hst : st.written = some t) : Q (sql H st) := by
  cases st with
  | insert n => cases hst; exact h.closed.map _ h.insert
  | insertSelect n => cases hst; exact h.closed.map _ h.insertSelect
  | delete n => cases hst; exact h.closed.map _ h.delete
  | update n => cases hst; exact h.closed.map _ h.update
  | merge n => cases hst; exact h.closed.map _ h.merge
  | _ => cases hst

end Shaped

/-! ## 3. Unharmed sessions -/

/-- Nothing moved but the cache, the cancel countdown and perhaps the counter. -/
structure Unharmed (s s' : Session V) : Prop where
  txn : s'.txn = s.txn
  catalog : s'.eng.catalog = s.eng.catalog
  delta : s'.eng.delta = s.eng.delta
  snapshots : s'.eng.snapshots = s.eng.snapshots
  parquet : s'.eng.disk.parquet = s.eng.disk.parquet
  saved : s'.eng.disk.catalog = s.eng.disk.catalog
  wal : s'.eng.disk.wal.getD [] = s.eng.disk.wal.getD []
  bases : s.faults.writesBack = false →
    ∀ t cols, cachedBase s'.eng t cols = cachedBase s.eng t cols
  counter : s'.eng.commitTs = s.eng.commitTs ∨ s'.eng.commitTs = s.eng.commitTs + 1

section Unharmed

variable {s s₁ s' : Session V}

theorem Quiet.unharmed (h : Quiet s s') : Unharmed s s' where
  txn := h.txn
  catalog := h.catalog
  delta := h.delta
  snapshots := h.snapshots
  parquet := by rw [h.disk]
  saved := by rw [h.disk]
  wal := by rw [h.disk]
  bases := h.bases
  counter := Or.inl h.commitTs

theorem Quiet.before (hq : Quiet s s₁) (h : Unharmed s₁ s') : Unharmed s s' where
  txn := h.txn.trans hq.txn
  catalog := h.catalog.trans hq.catalog
  delta := h.delta.trans hq.delta
  snapshots := h.snapshots.trans hq.snapshots
  parquet := by rw [h.parquet, hq.disk]
  saved := by rw [h.saved, hq.disk]
  wal := by rw [h.wal, hq.disk]
  bases := fun h0 t cols => (h.bases (hq.alone.trans h0) t cols).trans (hq.bases h0 t cols)
  counter := by rw [← hq.commitTs]; exact h.counter

variable [DecidableEq V]

/-- A read inside or outside a transaction returns the same, where no aggregate of the statement
wrote into a cached frame. -/
theorem Unharmed.glance (h : Unharmed s s') (ha : s.faults.writesBack = false) (x : Option (Transaction V)) (t : String)
    (columns : Option (List String)) :
    glance s'.eng x t columns = glance s.eng x t columns := by
  have hfull : lookBase s'.eng t none = lookBase s.eng t none := by
    rw [lookBase, lookBase, h.catalog, h.parquet]
  simp only [Engine.glance, h.bases ha, hfull, insertEntries, tombEntries, hasPending, hasTomb,
    h.catalog, h.delta]
  rfl

end Unharmed

/-! ## 4. The one write of a statement -/

section Writes

variable {H : Host V} {s : Session V} {t : String}

/-- A failed append of the session is truncated back. -/
def Restored (s : Session V) : Prop := ∀ x, s.faults.append = some x → x.truncated = true

/-- If the code raises, the session is unharmed. -/
def Sheltered {α : Type} (x : Op V α) (s : Session V) : Prop :=
  ∀ y s', x s = (.error y, s') → Unharmed s s'

theorem Sheltered.of_keeps {α : Type} {x : Op V α} (h : Proc.Keeps Quiet x) : Sheltered x s :=
  fun _ _ hx => (h.apply hx).unharmed

/-- Reading code in front of sheltered code. -/
theorem Sheltered.bind {α β : Type} {x : Op V α} {f : α → Op V β} (hx : Proc.Keeps Quiet x)
    (hs : Restored s) (hf : ∀ a s₁, Quiet s s₁ → Restored s₁ → Sheltered (f a) s₁) :
    Sheltered (x >>= f) s := by
  intro y s' h
  rcases Proc.bind_error.mp h with h | ⟨a, s₁, h₁, h⟩
  · exact (hx.apply h).unharmed
  · have hq : Quiet s s₁ := hx.apply h₁
    have hs₁ : Restored s₁ := by
      rw [Restored, hq.append]
      exact hs
    exact hq.before (hf a s₁ hq hs₁ y s' h)

/-- Code whose result is computed from what it returned. -/
theorem Sheltered.map {α β : Type} {x : Op V α} (h : Sheltered x s) (g : α → Op V β)
    (hg : ∀ a, ∃ b, g a = pure b) : Sheltered (x >>= g) s := by
  intro y s' hx
  rcases Proc.bind_error.mp hx with hx | ⟨a, s₁, -, hx⟩
  · exact h y s' hx
  · obtain ⟨b, hb⟩ := hg a
    rw [hb] at hx
    cases hx

/-- The log raises before the store is touched, and has its old bytes. -/
theorem writeCommit_sheltered (hs : Restored s) (bs : List (Batch V)) :
    Sheltered (writeCommit H bs) s := by
  intro y s' h
  rcases hw : Wal.writeCommit H s.eng.walEnabled s.eng.disk.wal s.faults.append
    (s.eng.commitTs + 1) bs with ⟨r, wal⟩
  cases r with
  | ok u =>
    rw [writeCommit_ok H hw] at h
    cases h
  | error y' =>
    rw [writeCommit_error H hw] at h
    cases h
    have hwal : wal.getD [] = s.eng.disk.wal.getD [] := by
      unfold Wal.writeCommit at hw
      split at hw
      · cases hw
      · split at hw
        · cases hw
        · simp only at hw
          split at hw
          · cases hw
            rfl
          · split at hw
            · cases hw
            · rename_i x hx
              rw [hs x hx] at hw
              cases hw
              rfl
    exact ⟨rfl, rfl, rfl, rfl, rfl, rfl, hwal, fun _ _ _ => rfl, Or.inr rfl⟩

theorem appendFrame_sheltered (hs : Restored s) (f : Frame V) : Sheltered (appendFrame H t f) s := by
  intro y s' h
  cases hx : s.txn with
  | some x =>
    rw [appendFrame_txn H hx] at h
    cases h
  | none =>
    rw [appendFrame, Proc.get_bind, hx] at h
    rcases Proc.bind_error.mp h with h | ⟨a, s₁, -, h⟩
    · exact writeCommit_sheltered hs _ y s' h
    · cases h

theorem appendTombstone_sheltered (hs : Restored s) (g : Frame V) :
    Sheltered (appendTombstone H t g) s := by
  intro y s' h
  cases hx : s.txn with
  | some x =>
    rw [appendTombstone_txn H hx] at h
    cases h
  | none =>
    rw [appendTombstone, Proc.get_bind, hx] at h
    rcases Proc.bind_error.mp h with h | ⟨a, s₁, -, h⟩
    · exact writeCommit_sheltered hs _ y s' h
    · cases h

/-- The sessions differ quietly once the slot is taken out. -/
def Aside (s s' : Session V) : Prop := Quiet { s with txn := none } { s' with txn := none }

theorem Aside.refl (s : Session V) : Aside s s := Quiet.refl _

theorem Aside.trans (a b c : Session V) (h : Aside a b) (h' : Aside b c) : Aside a c :=
  Quiet.trans _ _ _ h h'

theorem keeps_aside {α : Type} {x : Op V α} (h : Proc.Keeps Quiet x) : Proc.Keeps Aside x :=
  fun s => (h s).withTxn none

theorem keeps_onTxn (f : Transaction V → Transaction V) : Proc.Keeps Aside (onTxn f : Op V Unit) :=
  fun s => Aside.refl s

theorem keeps_bufferTombstone (t : String) (g : Option (Frame V)) (fl : Bool) :
    Proc.Keeps Aside (bufferTombstone t g fl : Op V Unit) := by
  cases g with
  | none => exact Proc.Keeps.pure Aside.refl ()
  | some g => exact keeps_onTxn _

/-- COMMIT that raises leaves the slot to its caller and harms nothing else. -/
theorem commit_raised (hs : Restored s) {y : DbError} {s' : Session V}
    (h : commit H s = (.error y, s')) : Unharmed { s with txn := none } { s' with txn := none } := by
  cases hx : s.txn with
  | none =>
    rw [commit, Proc.get_bind, hx] at h
    cases h
    exact (Quiet.refl _).unharmed
  | some x =>
    rw [commit, Proc.get_bind, hx] at h
    rcases Proc.bind_error.mp h with h | ⟨a, s₁, -, h⟩
    · obtain ⟨h2, h1⟩ := writeCommit_txn H (s := s) (commitBatches H x) none
      rw [h] at h1 h2
      exact writeCommit_sheltered (s := { s with txn := none }) hs _ y _ (Prod.ext h1 h2)
    · cases h

variable [DecidableEq V]

theorem keeps_bufferNew (t : String) (f : Option (Frame V)) : Proc.Keeps Aside (bufferNew t f) := by
  cases f with
  | none => exact Proc.Keeps.pure Aside.refl ()
  | some f => exact Proc.Keeps.bind Aside.trans (keeps_aside (keeps_enforceUnique t f)) fun _ =>
      keeps_onTxn _

/-- **The implicit transaction of UPDATE and MERGE leaves nothing behind when it raises.** -/
theorem flush_sheltered (hs : Restored s) (hx : s.txn = none) (w : Flush V) :
    Sheltered (flush H t w) s := by
  intro y s' h
  obtain ⟨s₁, hrun, rfl⟩ := Proc.onError_error (show Proc.onError _ _
    { s with txn := some { snapshotTs := s.eng.commitTs } } = (.error y, s') from h)
  have hbare : { s with txn := none } = s := by
    rw [← hx]
  -- up to the COMMIT only the slot and the cache move
  have hbefore : ∀ s₂ : Session V, Aside { s with txn := some { snapshotTs := s.eng.commitTs } } s₂ →
      Quiet s { s₂ with txn := none } := by
    intro s₂ ha
    have hq : Quiet { s with txn := none } { s₂ with txn := none } := ha
    rwa [hbare] at hq
  rcases Proc.bind_error.mp hrun with h | ⟨_, s₂, h₂, h⟩
  · exact (hbefore s₁ ((keeps_bufferTombstone t w.update true).apply h)).unharmed
  · have ha₂ := (keeps_bufferTombstone t w.update true).apply h₂
    rcases Proc.bind_error.mp h with h | ⟨_, s₃, h₃, h⟩
    · exact (hbefore s₁ (Aside.trans _ _ _ ha₂
        ((keeps_bufferTombstone t w.delete false).apply h))).unharmed
    · have ha₃ := Aside.trans _ _ _ ha₂ ((keeps_bufferTombstone t w.delete false).apply h₃)
      rcases Proc.bind_error.mp h with h | ⟨_, s₄, h₄, h⟩
      · exact (hbefore s₁ (Aside.trans _ _ _ ha₃ ((keeps_bufferNew t w.new).apply h))).unharmed
      · have hq := hbefore s₄ (Aside.trans _ _ _ ha₃ ((keeps_bufferNew t w.new).apply h₄))
        have hs₄ : Restored s₄ := by
          rw [Restored, show s₄.faults.append = s.faults.append from hq.append]
          exact hs
        exact hq.before (commit_raised hs₄ h)

end Writes

/-! ## 5. Statements -/

section Statements

variable {H : Host V} {s : Session V}

/-- Code behind the check that no transaction is open. -/
theorem sheltered_refuseInTxn {α : Type} (statement : String) {f : Unit → Op V α}
    (hf : s.txn = none → Sheltered (f ()) s) : Sheltered (refuseInTxn statement >>= f) s := by
  intro y s' h
  cases hx : s.txn with
  | none =>
    have hok : refuseInTxn statement s = (.ok (), s) := by rw [refuseInTxn, Proc.get_bind, hx]; rfl
    rw [Proc.bind_of_ok hok] at h
    exact hf hx y s' h
  | some x =>
    rcases Proc.bind_error.mp h with h | ⟨a, s₁, h₁, -⟩
    · exact ((keeps_refuseInTxn statement).apply h).unharmed
    · rw [refuseInTxn, Proc.get_bind, hx] at h₁
      cases h₁

theorem closed_sheltered : Closed fun {α : Type} (x : Op V α) =>
    ∀ s, Restored s → Sheltered x s where
  read hx _ _ := Sheltered.of_keeps hx
  bind hx hf _ hs := Sheltered.bind hx hs fun a s₁ _ hs₁ => hf a s₁ hs₁
  map _ hx s hs := (hx s hs).map _ fun _ => ⟨_, rfl⟩

/-- The same where no transaction is open: reading code does not open one. -/
theorem closed_shelteredOut : Closed fun {α : Type} (x : Op V α) =>
    ∀ s, s.txn = none → Restored s → Sheltered x s where
  read hx _ _ _ := Sheltered.of_keeps hx
  bind hx hf _ ho hs := Sheltered.bind hx hs fun a s₁ hq hs₁ => hf a s₁ (hq.txn.trans ho) hs₁
  map _ hx s ho hs := (hx s ho hs).map _ fun _ => ⟨_, rfl⟩

variable [DecidableEq V]

theorem shaped_sheltered {t : String} : Shaped H t (fun {α : Type} (x : Op V α) => ∀ s, Restored s → Sheltered x s)
    (fun {α : Type} (x : Op V α) => ∀ s, s.txn = none → Restored s → Sheltered x s) where
  closed := closed_sheltered
  closedOut := closed_shelteredOut
  refuse statement _ hf s hs := sheltered_refuseInTxn statement fun ho => hf s ho hs
  appendFrame f _ hs := appendFrame_sheltered hs f
  appendTombstone g _ hs := appendTombstone_sheltered hs g
  flush w _ ho hs := flush_sheltered hs ho w

/-- **A write statement that raises leaves the session unharmed.** -/
theorem write_unharmed {st : Stmt V} (hst : st.writes = true) (hs : Restored s) :
    Sheltered (sql H st) s := by
  obtain ⟨t, ht⟩ := Option.isSome_iff_exists.mp (st.writes_eq ▸ hst)
  exact shaped_sheltered.sql ht s hs

end Statements

/-! ## 6. Trails -/

/-- A relation along which sessions move whatever a statement does, restores apart. -/
structure Trail (H : Host V) (R : Session V → Session V → Prop) : Prop where
  refl : ∀ s, R s s
  trans : ∀ a b c, R a b → R b c → R a c
  quiet : ∀ s s', Quiet s s' → R s s'
  slot : ∀ s x, R s { s with txn := x }
  write : ∀ bs, Proc.Keeps R (writeCommit H bs)
  snapshot : ∀ name, Proc.Keeps R (snapshot name)

namespace Trail

variable {H : Host V} {R : Session V → Session V → Prop} {t : String}

theorem keeps (h : Trail H R) {α : Type} {x : Op V α} (hx : Proc.Keeps Quiet x) : Proc.Keeps R x :=
  fun s => h.quiet s _ (hx s)

/-- Reading code in front of code on the trail. -/
theorem bind (h : Trail H R) {α β : Type} {x : Op V α} {f : α → Op V β} (hx : Proc.Keeps Quiet x)
    (hf : ∀ a, Proc.Keeps R (f a)) : Proc.Keeps R (x >>= f) :=
  Proc.Keeps.bind h.trans (h.keeps hx) hf

/-- Code on the trail whose result is then computed. -/
theorem map (h : Trail H R) {α β : Type} {x : Op V α} (hx : Proc.Keeps R x) (f : α → β) :
    Proc.Keeps R (do let a ← x; return f a : Op V β) :=
  Proc.Keeps.bind h.trans hx fun _ => Proc.Keeps.pure h.refl _

theorem closed (h : Trail H R) : Closed fun {α : Type} (x : Op V α) => Proc.Keeps R x where
  read := h.keeps
  bind := h.bind
  map f hx := h.map hx f

theorem aside (h : Trail H R) {s s' : Session V} (ha : Aside s s') : R s s' :=
  h.trans _ _ _ (h.slot s none) (h.trans _ _ _ (h.quiet _ _ ha) (h.slot _ s'.txn))

theorem appendFrame (h : Trail H R) (f : Frame V) : Proc.Keeps R (appendFrame H t f) := by
  intro s
  cases hx : s.txn with
  | none =>
    rw [appendFrame_auto H hx]
    exact h.write _ s
  | some x =>
    rw [appendFrame_txn H hx]
    exact h.slot s _

theorem appendTombstone (h : Trail H R) (g : Frame V) : Proc.Keeps R (appendTombstone H t g) := by
  intro s
  cases hx : s.txn with
  | none =>
    rw [appendTombstone_auto H hx]
    exact h.write _ s
  | some x =>
    rw [appendTombstone_txn H hx]
    exact h.slot s _

theorem commit (h : Trail H R) : Proc.Keeps R (commit H) := by
  intro s
  cases hx : s.txn with
  | none =>
    rw [Engine.commit, Proc.get_bind, hx]
    exact h.refl s
  | some x =>
    rw [commit_of_txn H hx]
    rcases hw : writeCommit H (commitBatches H x) s with ⟨r, s₁⟩
    have hs₁ : R s s₁ := (h.write _).apply hw
    cases r with
    | error y => exact hs₁
    | ok ts => exact h.trans _ _ _ hs₁ (h.slot s₁ none)

variable [DecidableEq V]

theorem flush (h : Trail H R) (w : Flush V) : Proc.Keeps R (flush H t w) := by
  intro s
  rw [flush_eq]
  refine h.trans _ _ _ (h.slot s _) (Proc.Keeps.onError h.trans ?_ (fun s' => h.slot s' none) _)
  exact Proc.Keeps.bind h.trans (fun s' => h.aside (keeps_bufferNew t w.new s')) fun _ => h.commit

theorem shaped (h : Trail H R) : Shaped H t (fun {α : Type} (x : Op V α) => Proc.Keeps R x)
    (fun {α : Type} (x : Op V α) => Proc.Keeps R x) where
  closed := h.closed
  closedOut := h.closed
  refuse statement _ hf := h.bind (keeps_refuseInTxn statement) fun _ => hf
  appendFrame f := h.appendFrame f
  appendTombstone g := h.appendTombstone g
  flush w := h.flush w

/-- **Every statement but a restore follows the trail.** -/
theorem sql (h : Trail H R) {st : Stmt V} (hst : ∀ name, st ≠ .restoreToSnapshot name) :
    Proc.Keeps R (sql H st) := by
  cases st with
  | select q => exact h.bind (keeps_exec q) fun _ => Proc.Keeps.pure h.refl _
  | insert n => exact h.shaped.sql rfl
  | insertSelect n => exact h.shaped.sql rfl
  | delete n => exact h.shaped.sql rfl
  | update n => exact h.shaped.sql rfl
  | merge n => exact h.shaped.sql rfl
  | begin =>
    refine h.map (x := begin_) (fun s => ?_) _
    unfold begin_
    cases hx : s.txn with
    | none => exact h.slot s _
    | some x => exact h.refl s
  | commit => exact h.map h.commit _
  | rollback =>
    refine h.map (x := rollback) (fun s => ?_) _
    unfold rollback
    cases hx : s.txn with
    | none => exact h.refl s
    | some x => exact h.slot s none
  | createSnapshot name => exact h.map (h.snapshot name) _
  | restoreToSnapshot name => exact absurd rfl (hst name)
  | rejected e => exact Proc.Keeps.raise h.refl e

end Trail

end Engine

/-! ## 7. Runs from a fresh log -/

/-- A commit does not change the surroundings of its statement. -/
theorem Engine.faults_writeCommit (H : Host V) (bs : List (Batch V)) (s : Session V) :
    (Engine.writeCommit H bs s).2.faults = s.faults := by
  unfold Engine.writeCommit
  simp only
  split <;> rfl

section Recovery

variable [DecidableEq V] {H : Host V}

/-- Where a failed append is truncated back, the log and the delta stay together along the way. -/
def Paired (H : Host V) (s s' : Session V) : Prop :=
  s'.faults.append = s.faults.append ∧
    (Engine.Restored s → (∃ log, Logged H s.eng log) → ∃ log, Logged H s'.eng log)

omit [DecidableEq V] in
/-- Reading, the slot, a commit and a snapshot keep the log and the delta together. -/
theorem trail_paired (H : Host V) : Engine.Trail H (Paired H) where
  refl _ := ⟨rfl, fun _ h => h⟩
  trans a b c h h' := by
    refine ⟨h'.1.trans h.1, fun hs hl => h'.2 ?_ (h.2 hs hl)⟩
    rw [Engine.Restored, h.1]
    exact hs
  quiet s s' hq := ⟨hq.append, fun _ ⟨log, hl⟩ => ⟨log, hl.quiet hq⟩⟩
  slot _ _ := ⟨rfl, fun _ h => h⟩
  write bs s := ⟨congrArg Faults.append (Engine.faults_writeCommit H bs s), fun hs ⟨_, hl⟩ => hl.writeCommit bs hs⟩
  snapshot name s := by
    refine ⟨rfl, fun _ ⟨log, hl⟩ => ⟨log, hl.enabled, hl.file, hl.same, hl.increasing, hl.bounds,
      hl.nonempty, hl.counter, ?_⟩⟩
    intro n ts hn
    rw [Engine.snapshot, Proc.modify_apply, Dict.get?_set] at hn
    split at hn
    · cases hn
      exact ⟨hl.counter, le_refl _⟩
    · exact hl.snapshots n ts hn

/-- **A step whose faults spare the log keeps the log and the delta together**, whatever the cache
holds. -/
theorem recoverable_step (w : World V) (a : Step V) (h : Recoverable H w) (ha : Durable a) :
    Recoverable H (w.step H a) := by
  cases a with
  | sql c st faults =>
    by_cases hst : ∃ name, st = .restoreToSnapshot name
    · obtain ⟨name, rfl⟩ := hst
      obtain ⟨log, hl⟩ := h
      exact logged_effect (s := w.session c faults) hl (Engine.restore_effect H name) ha.1 ha.2
    · have hne : ∀ name, st ≠ .restoreToSnapshot name := fun name hname => hst ⟨name, hname⟩
      exact ((trail_paired H).sql hne (w.session c faults)).2 ha.1 h
  | disconnect c => exact h
  | restart =>
    obtain ⟨log, hl⟩ := h
    exact ⟨log, start_logged hl.enabled hl.file hl.increasing (fun c hc => (hl.bounds c hc).1)
      hl.nonempty⟩

/-- **Restart rebuilds the delta at every point of a run.**  After any run from a fresh log whose
faults spare the log, start-up rebuilds the delta in memory with a counter that covers it, and
start-up after any prefix of the bytes of the next commit record rebuilds the delta before or after
that commit. -/
theorem recovery (H : Host V) (dir : String) (d : Disk V) (hd : d.wal = none)
    (steps : List (Step V)) (hs : ∀ a ∈ steps, Durable a) :
    Recovers H (Run.run (World.step H) (World.init H (some dir) d) steps).eng := by
  have hdurable : Run.Along (World.step H) (fun _ a => Durable a) (World.init H (some dir) d) steps :=
    Run.Along.of_forall hs
  obtain ⟨log, hl⟩ := hdurable.invariant (P := Recoverable H) recoverable_step
    (recoverable_init H dir d hd)
  exact hl.recovers

end Recovery

/-- A run with a commit, a failed commit and a restore. -/
theorem recovery_restore :
    Recovers natHost (Run.run (World.step natHost) (World.init natHost (some "d") oneTable)
      [.sql 0 (.createSnapshot "a") {}, .sql 0 (insertKey "t" 1) {},
        .sql 0 (insertKey "t" 2) { append := some ⟨3, true⟩ },
        .sql 0 (.restoreToSnapshot "a") {}]).eng := by
  refine recovery natHost "d" oneTable rfl _ ?_
  intro a ha
  simp only [List.mem_cons, List.not_mem_nil, or_false] at ha
  rcases ha with rfl | rfl | rfl | rfl <;>
    exact ⟨by simp, by simp [insertKey]⟩

/-! ## 8. All or nothing -/

section Whole

variable [DecidableEq V] {H : Host V} {w : World V} {c : Nat} {st : Stmt V} {faults : Faults}

/-- **A write statement is all or nothing, as far as its aggregates leave the cached frames alone.**  If
an INSERT, DELETE, UPDATE or MERGE raises, with a failed append truncated back, then the delta, the
bytes of the log, the connection's transaction and the catalog are as before and at most the counter
has moved by one; where restart rebuilt the delta before, it rebuilds the delta at every point of
every later run.  Every read inside or outside any transaction returns the same rows, unless an
aggregate of the statement's query has written its keys and its column of ones into a cached frame. -/
theorem write_all_or_nothing (hst : st.writes = true)
    (hf : ∀ x, faults.append = some x → x.truncated = true) {y : DbError} {s' : Session V}
    (h : Engine.sql H st (w.session c faults) = (.error y, s')) :
    (s'.eng.delta = w.eng.delta ∧
      s'.eng.disk.wal.getD [] = w.eng.disk.wal.getD [] ∧
      s'.txn = w.txns.get? c ∧
      s'.eng.catalog = w.eng.catalog ∧
      (s'.eng.commitTs = w.eng.commitTs ∨ s'.eng.commitTs = w.eng.commitTs + 1) ∧
      (Recoverable H w → ∀ steps, (∀ a ∈ steps, Durable a) →
        Recovers H (Run.run (World.step H) (w.store c s') steps).eng)) ∧
      (faults.writesBack = false → (∀ t, Engine.visible s'.eng t = Engine.visible w.eng t) ∧
        ∀ x t, Engine.visibleIn s'.eng x t = Engine.visibleIn w.eng x t) := by
  have hu : Engine.Unharmed (w.session c faults) s' :=
    Engine.write_unharmed (s := w.session c faults) hst hf y s' h
  refine ⟨⟨hu.delta, hu.wal, hu.txn, hu.catalog, hu.counter, ?_⟩, fun ha => ⟨?_, ?_⟩⟩
  · intro hw steps hsteps
    have hdurable : Durable (.sql c st faults) := by
      refine ⟨hf, fun name hname => ?_⟩
      rw [hname] at hst
      cases hst
    have hstep : w.step H (.sql c st faults) = w.store c s' := by
      change w.store c (Engine.sql H st (w.session c faults)).2 = w.store c s'
      rw [h]
    have hw' : Recoverable H (w.store c s') := by
      rw [← hstep]
      exact recoverable_step w _ hw hdurable
    obtain ⟨log, hl⟩ := (Run.Along.of_forall hsteps).invariant (P := Recoverable H)
      recoverable_step hw'
    exact hl.recovers
  · intro t
    rw [Engine.visible_glance, Engine.visible_glance, hu.glance ha]
    rfl
  · intro x t
    rw [Engine.visibleIn_glance, Engine.visibleIn_glance, hu.glance ha]
    rfl

end Whole

set_option maxRecDepth 10000 in
/-- An INSERT whose append is cut off after three bytes, and one after it that succeeds. -/
theorem write_all_or_nothing_insert :
    ∃ y s', Engine.sql natHost (insertKey "t" 1)
        ((World.init natHost (some "d") oneTable).session 0 { append := some ⟨3, true⟩ }) =
          (.error y, s') ∧
      s'.eng.delta = (World.init natHost (some "d") oneTable).eng.delta ∧
      Recovers natHost (Run.run (World.step natHost)
        ((World.init natHost (some "d") oneTable).store 0 s') [.sql 0 (insertKey "t" 2) {}]).eng := by
  have hraises : (Engine.sql natHost (insertKey "t" 1)
      ((World.init natHost (some "d") oneTable).session 0
        { append := some ⟨3, true⟩ })).1.toBool = false := by
    with_unfolding_all decide
  rcases hrun : Engine.sql natHost (insertKey "t" 1)
    ((World.init natHost (some "d") oneTable).session 0 { append := some ⟨3, true⟩ }) with ⟨r, s'⟩
  rw [hrun] at hraises
  have hwrites : (insertKey "t" 1).writes = true := rfl
  cases r with
  | ok v => cases hraises
  | error y =>
    obtain ⟨⟨hdelta, -, -, -, -, hlater⟩, -⟩ :=
      write_all_or_nothing (H := natHost) hwrites (by rintro x ⟨⟩; rfl) hrun
    refine ⟨y, s', rfl, hdelta, hlater ?_ _ ?_⟩
    · exact recoverable_init natHost "d" oneTable rfl
    · intro a ha
      rw [List.mem_singleton.mp ha]
      exact ⟨by simp, by simp [insertKey]⟩

/-- A data directory with two tables of one key column, `t` with the row 1 and `u` with no row. -/
def twoTables : Disk Nat where
  parquet := ((∅ : Dict _ _).set ⟨"d", "t.parquet"⟩ (keyParquet [1])).set ⟨"d", "u.parquet"⟩
    (keyParquet [])
  catalog := some [⟨"t", [⟨"d", "t.parquet"⟩], ⟨["k"], some ["k"], [], ∅⟩⟩,
    ⟨"u", [⟨"d", "u.parquet"⟩], ⟨["k"], some ["k"], [], ∅⟩⟩]
  wal := none

/-- `SELECT 1 AS one, COUNT(*) FROM t`: the group key `one` and the column of ones `__cnt` are set on the
frame that the scan of `t` has returned. -/
def onesOfT : Query Nat where
  reads := [("t", none)]
  eval fs := .ok (Frame.ofCells (["one", "count"], fs.map fun f => [some 1, some f.rows.length]))
  writes c :=
    match c.get? ("t", none) with
    | none => c
    | some f => c.set ("t", none) (Frame.ofRows (f.columns ++ ["one", "__cnt"])
        (f.rows.map fun r => Function.update (Function.update r "one" (some 1)) "__cnt" (some 1)))

/-- `INSERT INTO u SELECT 1 AS one, COUNT(*) FROM t` is refused for its two columns, and from then on the
row of `t` has a column `one`. -/
theorem insertSelect_writes_back :
    ∃ y s', Engine.sql natHost (.insertSelect ⟨"u", none, onesOfT⟩)
        ((World.init natHost (some "d") twoTables).session 0 { writesBack := true }) = (.error y, s') ∧
      Engine.visible s'.eng "t" ≠
        Engine.visible (World.init natHost (some "d") twoTables).eng "t" := by
  rcases hrun : Engine.sql natHost (.insertSelect ⟨"u", none, onesOfT⟩)
    ((World.init natHost (some "d") twoTables).session 0 { writesBack := true }) with ⟨r, s'⟩
  have hraises : (Engine.sql natHost (.insertSelect ⟨"u", none, onesOfT⟩)
      ((World.init natHost (some "d") twoTables).session 0 { writesBack := true })).1.toBool = false := by
    with_unfolding_all decide
  have hshown : ((Engine.visible (Engine.sql natHost (.insertSelect ⟨"u", none, onesOfT⟩)
      ((World.init natHost (some "d") twoTables).session 0 { writesBack := true })).2.eng
        "t").toOption.map (List.map (· "one"))) ≠
      ((Engine.visible (World.init natHost (some "d") twoTables).eng
        "t").toOption.map (List.map (· "one"))) := by
    with_unfolding_all decide
  rw [hrun] at hraises hshown
  cases r with
  | ok v => cases hraises
  | error y => exact ⟨y, s', rfl, fun h => hshown (by rw [h])⟩

end RyuDB
