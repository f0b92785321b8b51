/-
# The implicit transaction

UPDATE and MERGE flush in a transaction of their own: tombstones of the old rows, the uniqueness
check of the new ones against what the tombstones leave, the new rows, COMMIT.  This module says
exactly what a flush that returned has done (`flush_committed`, `rows_flushed`) and exactly when
the uniqueness check raises (`enforcePure_admits`, `enforcePure_violation`).

The check can only answer when the declared keys are columns of the table (`KeysKnown`), as the
setters of the catalog leave them.

Why the state is asked to be sound here and nowhere in `Atomic`: that a refused statement changes
nothing is read off the code, but that the check compares the new rows with the right old ones
depends on the delta, on the buffer and on the file having the shape they are kept in.
-/
import RyuDB.Unique
import RyuDB.NotNull

namespace RyuDB.Engine

variable {V : Type} [DecidableEq V]

/-! ## 1. What a flush writes

The write set is a list of tombstones, hard ones for a MERGE that deletes and soft ones for rows that
are replaced, and the new rows.  They go through the buffer of a transaction that nobody else sees, so
the check runs against what the tombstones leave, and COMMIT writes one record. -/

section Flush

variable {H : Host V} {s s₁ s' : Session V} {t : String} {w : Flush V}

omit [DecidableEq V] in
/-- The frames differ in caches and cancel countdown only. -/
theorem Committed.after {bs : List (Batch V)} (h : Committed bs s₁.eng s'.eng)
    (hq : Quiet s s₁) : Committed bs s.eng s'.eng where
  catalog := h.catalog.trans hq.catalog
  parquet := h.parquet.trans (congrArg _ hq.disk)
  commitTs := by rw [h.commitTs, hq.commitTs]
  delta := by rw [h.delta, hq.delta, hq.commitTs]

/-- The new rows passed the check and are in the buffer. -/
theorem bufferNew_ok (hc : Pristine s) {x : Transaction V} (hx : s.txn = some x)
    {f : Option (Frame V)} {r : Unit} (h : bufferNew t f s = (.ok r, s')) :
    (∀ g, f = some g → enforcePure s.eng (some x) t g = .ok ()) ∧
      ∃ s₁, Quiet s s₁ ∧ s' = { s₁ with txn := some (withNew t f x) } := by
  refine ⟨fun g hg => ?_, bufferNew_slot hx h⟩
  subst hg
  obtain ⟨a, s₁, h₁, -⟩ := Proc.bind_ok.mp h
  rw [← hx]
  exact ((enforceUnique_reads hc (Quiet.refl s) t g).ok h₁).1

omit [DecidableEq V] in
/-- Tombstones that list the primary key of the table are well shaped. -/
theorem txnOk_tombed {c : Catalog V} {i : TableInfo V} {p : List String}
    (hi : c.tables.get? t = some i) (hp : i.constraints.primaryKey = some p) (hne : p ≠ [])
    (hsub : ∀ col ∈ p, col ∈ i.columns)
    (hg : ∀ g ∈ w.update.toList ++ w.delete.toList, g.columns = p) (ts : Int) :
    TxnOk c (w.tombed t { snapshotTs := ts }) := by
  constructor
  · intro u f hf
    rw [Flush.bufferBatches_tombed, Transaction.bufferBatches_new] at hf
    cases hf
  · intro u g hg'
    rw [Flush.tombstones_tombed, Transaction.tombstoneBatches_new, List.nil_append] at hg'
    split at hg'
    · rename_i hu
      rw [hu]
      have hmem : g.1 ∈ w.update.toList ++ w.delete.toList := by
        rcases List.mem_append.mp hg' with h | h
        · obtain ⟨g', hin, rfl⟩ := List.mem_map.mp h
          exact List.mem_append_left _ hin
        · obtain ⟨g', hin, rfl⟩ := List.mem_map.mp h
          exact List.mem_append_right _ hin
      exact ⟨i, p, hi, hp, hne, hsub, hg g.1 hmem⟩
    · cases hg'

/-- **A flush that returned committed its write set in one commit**, after the check of its new
rows against what its tombstones leave. -/
theorem flush_committed (hc : Pristine s) {r : Unit} (h : flush H t w s = (.ok r, s')) :
    (∃ bs, Committed bs s.eng s'.eng ∧
      Carries bs (w.buffered t { snapshotTs := s.eng.commitTs })) ∧ s'.txn = none ∧
    ∀ f, w.new = some f →
      enforcePure s.eng (some (w.tombed t { snapshotTs := s.eng.commitTs })) t f = .ok () := by
  rw [flush_eq] at h
  replace h := Proc.onError_ok h
  obtain ⟨a, s₁, h₁, h⟩ := Proc.bind_ok.mp h
  obtain ⟨hcheck, s₂, hq, rfl⟩ := bufferNew_ok (s := { s with txn := some (w.tombed t
    { snapshotTs := s.eng.commitTs }) }) ⟨hc.coherent, hc.alone⟩ rfl h₁
  rw [withNew_tombed, commit_of_txn H rfl] at h
  have hwrote := writeCommit_wrote H (commitBatches H (w.buffered t
    { snapshotTs := s.eng.commitTs })) { s₂ with txn := some (w.buffered t
      { snapshotTs := s.eng.commitTs }) }
  generalize writeCommit H (commitBatches H (w.buffered t { snapshotTs := s.eng.commitTs }))
    { s₂ with txn := some (w.buffered t { snapshotTs := s.eng.commitTs }) } = p at h hwrote
  cases hwrote with
  | error y wal => cases h
  | ok wal =>
    cases h
    refine ⟨⟨_, ?_, commitBatches_carries H _⟩, rfl, hcheck⟩
    have hdisk : s₂.eng.disk = s.eng.disk := hq.disk
    have hdelta : s₂.eng.delta = s.eng.delta := hq.delta
    have hts : s₂.eng.commitTs = s.eng.commitTs := hq.commitTs
    exact ⟨hq.catalog, by simp only [hdisk], by simp only [hts], by simp only [hdelta, hts]⟩

/-- A flush whose check raises raises what the check raises, and writes nothing. -/
theorem flush_refused (hc : Pristine s) (hcalm : s.faults.cancelAfter = none) {f : Frame V}
    (hn : w.new = some f) {y : DbError}
    (h : enforcePure s.eng (some (w.tombed t { snapshotTs := s.eng.commitTs })) t f = .error y) :
    (flush H t w s).1 = .error y := by
  rw [flush_eq, hn]
  have hreads := enforceUnique_reads (s := { s with txn := some (w.tombed t
    { snapshotTs := s.eng.commitTs }) }) ⟨hc.coherent, hc.alone⟩ (Quiet.refl _) t f
  have hval := hreads.value.calm hcalm
  rw [h] at hval
  rcases hrun : enforceUnique t f { s with txn := some (w.tombed t
    { snapshotTs := s.eng.commitTs }) } with ⟨v, s₁⟩
  rw [hrun] at hval
  cases hval
  have hbuf : bufferNew t (some f) { s with txn := some (w.tombed t
      { snapshotTs := s.eng.commitTs }) } = (.error y, s₁) := Proc.bind_of_error hrun
  rw [Proc.onError, Proc.bind_of_error hbuf]

/-- The committed rows of a table. -/
def rowsOf (e : Engine V) (t : String) : List (Row V) := (seen e none t).map Prod.snd

/-- The rows the tombstones of a write set spare. -/
def spared (i : TableInfo V) (gs : List (Frame V × Bool)) (r : Row V) : Bool :=
  decide (keyOf (keyCols i) r ∉ keysOf (keyCols i) false gs ∧
    keyOf (keyCols i) r ∉ keysOf (keyCols i) true gs)

/-- The rows after a commit: what its tombstones leave of the old rows, then its own rows. -/
theorem rows_committed {e e' : Engine V} (he : Sound e) {bs : List (Batch V)}
    {x : Transaction V} {i : TableInfo V} (hcom : Committed bs e e') (hbs : Carries bs x)
    (hi : e.catalog.tables.get? t = some i) :
    rowsOf e' t = (rowsOf e t).filter (spared i (x.tombstoneBatchesWithFlag t)) ++
      (ownRows x t).filter fun r =>
        decide (keyOf (keyCols i) r ∉ keysOf (keyCols i) false (x.tombstoneBatchesWithFlag t)) := by
  rw [rowsOf, seen_commit he.ok.delta he.counter hcom hbs hi, overlay_map, rowsOf, List.filter_map]
  rfl

/-- The rows the uniqueness check compares the new ones with: what the tombstones leave. -/
theorem rows_tombed {e : Engine V} (he : Sound e) (hnow : e.commitTs < insInf) {i : TableInfo V}
    (hi : e.catalog.tables.get? t = some i) :
    (seen e (some (w.tombed t { snapshotTs := e.commitTs })) t).map Prod.snd =
      (rowsOf e t).filter (spared i ((w.tombed t
        { snapshotTs := e.commitTs }).tombstoneBatchesWithFlag t)) := by
  rw [seen_txn he.ok.delta _ (by simpa using hnow) hi, Flush.snapshotTs_tombed,
    seen_now he.ok.delta, overlay_map, rowsOf, List.filter_map]
  simp only [ownRows, Flush.bufferBatches_tombed, Transaction.bufferBatches_new,
    List.flatMap_nil, List.filter_nil, List.append_nil]
  rfl

end Flush

/-! ## 2. When the uniqueness check raises -/

/-- The declared keys are lists of columns of the table, none of them empty. -/
def KeysKnown (i : TableInfo V) : Prop :=
  ∀ key ∈ declaredKeys i.constraints, key ≠ [] ∧ ∀ c ∈ key, c ∈ i.columns

/-- The exception of `_enforce_unique`. -/
def IsUniqueViolation (y : DbError) : Prop := ∃ msg, y = .runtime ("UNIQUE violation: " ++ msg)

section Checks

variable {e : Engine V} {x : Option (Transaction V)} {t : String} {i : TableInfo V}

/-- The rows of the batch collide neither with each other nor with `rows` in one key. -/
def AdmitsKey (key : List String) (rows : List (Int × Row V)) (f : Frame V) : Prop :=
  ((f.rows.map (keyOf key)).filter Key.nonNull).Nodup ∧
    ∀ y ∈ rows, ∀ r ∈ f.rows, Key.nonNull (keyOf key r) = true → keyOf key y.2 ≠ keyOf key r

/-- The check of one known key: duplicates in the batch, then collisions with the rows in sight. -/
theorem enforceKeyPure_eq (h : EngineOk e) (hx : TxnOk? e.catalog x)
    (hi : e.catalog.tables.get? t = some i) {f : Frame V} (hf : f.columns = i.columns)
    {key : List String} (hne : key ≠ []) (hsub : ∀ c ∈ key, c ∈ i.columns) :
    enforceKeyPure e x t f key =
      let new := (f.rows.map (keyOf key)).filter Key.nonNull
      let existing := ((seen e x t).map fun y => keyOf key y.2).filter Key.nonNull
      if new.length ≠ new.dedup.length then
        .error (.runtime ("UNIQUE violation: " ++ t ++ "." ++ pyList key ++
          " duplicate within INSERT batch"))
      else if (new.map fun k => existing.count k).sum ≠ 0 then
        .error (.runtime ("UNIQUE violation: " ++ t ++ "." ++ pyList key ++ " " ++
          toString (new.map fun k => existing.count k).sum ++ " row(s) already exist"))
      else .ok () := by
  have hkne : key.isEmpty = false := by
    cases key with
    | nil => exact absurd rfl hne
    | cons _ _ => rfl
  have hnew : nonNullKeys key f = .ok ((f.rows.map (keyOf key)).filter Key.nonNull) := by
    have hmiss : key.filter (fun c => decide (c ∉ f.columns)) = [] := by
      refine List.filter_eq_nil_iff.mpr fun c hc => ?_
      rw [hf]
      simpa using hsub c hc
    rw [nonNullKeys, hmiss]
    simp only [Frame.dropna, Frame.filter_rows, Except.ok.injEq]
    rw [List.filter_map]
    rfl
  obtain ⟨g, hg, hgc, hgr⟩ := look_project h hx hi hne hsub
  have hgk := nonNullKeys_restrict hgc hgr
  unfold enforceKeyPure
  simp only [hnew, hg, hgk, bind, Except.bind, hkne, Bool.not_false, Bool.true_and,
    decide_eq_true_eq, Bool.false_eq_true, if_false]
  by_cases hdup : ((f.rows.map (keyOf key)).filter Key.nonNull).length ≠
      ((f.rows.map (keyOf key)).filter Key.nonNull).dedup.length
  · rw [if_pos hdup, if_pos hdup]
  · rw [if_neg hdup, if_neg hdup]
    by_cases hempty : (((seen e x t).map fun y => keyOf key y.2).filter Key.nonNull).isEmpty = true
    · have hnil := List.isEmpty_iff.mp hempty
      rw [if_pos hempty, hnil, if_neg (by simp)]
      rfl
    · rw [if_neg hempty]
      rfl

/-- **The check of one key raises a uniqueness error just when a row collides.** -/
theorem enforceKeyPure_cases (h : EngineOk e) (hx : TxnOk? e.catalog x)
    (hi : e.catalog.tables.get? t = some i) {f : Frame V} (hf : f.columns = i.columns)
    {key : List String} (hne : key ≠ []) (hsub : ∀ c ∈ key, c ∈ i.columns) :
    enforceKeyPure e x t f key = .ok () ∧ AdmitsKey key (seen e x t) f ∨
      (∃ y, enforceKeyPure e x t f key = .error y ∧ IsUniqueViolation y) ∧
        ¬ AdmitsKey key (seen e x t) f := by
  rw [enforceKeyPure_eq h hx hi hf hne hsub]
  dsimp only
  generalize hnew : (f.rows.map (keyOf key)).filter Key.nonNull = new
  generalize hex : ((seen e x t).map fun y => keyOf key y.2).filter Key.nonNull = existing
  have hmem : ∀ y ∈ seen e x t, ∀ r ∈ f.rows, Key.nonNull (keyOf key r) = true →
      keyOf key y.2 = keyOf key r → keyOf key r ∈ new ∧ keyOf key r ∈ existing := by
    intro y hy r hr hnn heq
    subst hnew hex
    exact ⟨List.mem_filter.mpr ⟨List.mem_map_of_mem hr, hnn⟩,
      List.mem_filter.mpr ⟨List.mem_map.mpr ⟨y, hy, heq⟩, hnn⟩⟩
  by_cases hdup : new.length ≠ new.dedup.length
  · rw [if_pos hdup]
    refine .inr ⟨⟨_, rfl, t ++ "." ++ pyList key ++ " duplicate within INSERT batch",
      by simp only [String.append_assoc]⟩, fun hadm => hdup ?_⟩
    have hnodup : new.Nodup := hnew ▸ hadm.1
    rw [List.dedup_eq_self.mpr hnodup]
  · rw [if_neg hdup]
    rw [not_not] at hdup
    have hnodup : new.Nodup := by
      rw [← List.dedup_eq_self]
      exact (List.dedup_sublist _).eq_of_length hdup.symm
    by_cases hsum : (new.map fun k => existing.count k).sum ≠ 0
    · rw [if_pos hsum]
      refine .inr ⟨⟨_, rfl, t ++ "." ++ pyList key ++ " " ++
        toString (new.map fun k => existing.count k).sum ++ " row(s) already exist",
        by simp only [String.append_assoc]⟩, fun hadm => hsum ?_⟩
      rw [List.sum_eq_zero_iff_forall_eq_nat]
      intro c hc
      obtain ⟨k, hk, rfl⟩ := List.mem_map.mp hc
      rw [List.count_eq_zero]
      intro hke
      subst hnew hex
      obtain ⟨hk, hnn⟩ := List.mem_filter.mp hk
      obtain ⟨r, hr, rfl⟩ := List.mem_map.mp hk
      obtain ⟨y, hy, heq⟩ := List.mem_map.mp (List.mem_filter.mp hke).1
      exact hadm.2 y hy r hr hnn heq
    · rw [if_neg hsum]
      rw [not_not, List.sum_eq_zero_iff_forall_eq_nat] at hsum
      refine .inl ⟨rfl, by rw [hnew]; exact hnodup, fun y hy r hr hnn heq => ?_⟩
      obtain ⟨hin, hin'⟩ := hmem y hy r hr hnn heq
      have hzero := hsum _ (List.mem_map_of_mem hin)
      rw [List.count_eq_zero] at hzero
      exact hzero hin'

/-- **The uniqueness check returns just when the rows in sight admit the batch, and raises a
uniqueness error otherwise.** -/
theorem enforcePure_cases (h : EngineOk e) (hx : TxnOk? e.catalog x)
    (hi : e.catalog.tables.get? t = some i) (hk : KeysKnown i) {f : Frame V}
    (hf : f.columns = i.columns) :
    enforcePure e x t f = .ok () ∧ Admits i (seen e x t) f ∨
      (∃ y, enforcePure e x t f = .error y ∧ IsUniqueViolation y) ∧
        ¬ Admits i (seen e x t) f := by
  have hrun : enforcePure e x t f =
      (declaredKeys i.constraints).forM fun key => enforceKeyPure e x t f key := by
    rw [enforcePure, get_eq_ok.mpr hi]
    rfl
  have hgen : ∀ keys : List (List String), (∀ key ∈ keys, key ∈ declaredKeys i.constraints) →
      (keys.forM fun key => enforceKeyPure e x t f key) = .ok () ∧
          (∀ key ∈ keys, AdmitsKey key (seen e x t) f) ∨
        (∃ y, (keys.forM fun key => enforceKeyPure e x t f key) = .error y ∧
          IsUniqueViolation y) ∧ ∃ key ∈ keys, ¬ AdmitsKey key (seen e x t) f := by
    intro keys
    induction keys with
    | nil => exact fun _ => .inl ⟨rfl, fun _ hkey => by cases hkey⟩
    | cons key keys ih =>
      intro hsub
      have hkey := hk key (hsub key List.mem_cons_self)
      have hstep : ((key :: keys).forM fun key => enforceKeyPure e x t f key) =
          (enforceKeyPure e x t f key >>= fun _ =>
            keys.forM fun key => enforceKeyPure e x t f key) := rfl
      rw [hstep]
      rcases enforceKeyPure_cases h hx hi hf hkey.1 hkey.2 with ⟨hok, hadm⟩ | ⟨⟨y, hy, hu⟩, hno⟩
      · rw [hok]
        rcases ih fun k hk => hsub k (List.mem_cons_of_mem key hk) with ⟨hr, hall⟩ | ⟨hr, k, hk, hno⟩
        · refine .inl ⟨hr, fun k hk => ?_⟩
          rcases List.mem_cons.mp hk with rfl | hk
          · exact hadm
          · exact hall k hk
        · exact .inr ⟨hr, k, List.mem_cons_of_mem key hk, hno⟩
      · rw [hy]
        exact .inr ⟨⟨y, rfl, hu⟩, key, List.mem_cons_self, hno⟩
  rw [hrun]
  rcases hgen _ fun _ hkey => hkey with ⟨hok, hall⟩ | ⟨herr, key, hkey, hno⟩
  · exact .inl ⟨hok, fun key hkey _ => hall key hkey⟩
  · exact .inr ⟨herr, fun hadm => hno (hadm key hkey (hk key hkey).1)⟩

end Checks

/-! ## 3. Errors that are no uniqueness errors

A statement can fail for other reasons behind the check, a number that does not fit a log record or a
failing log.  None of these is a uniqueness error, which is what makes the equivalence an equivalence.
-/

/-- The computation raises no uniqueness error. -/
def NoViolation {α : Type} (x : Except DbError α) : Prop :=
  ∀ y, x = .error y → ¬ IsUniqueViolation y

theorem NoViolation.ok {α : Type} (a : α) : NoViolation (.ok a) := fun _ h => by cases h

theorem NoViolation.bind {α β : Type} {x : Except DbError α} {f : α → Except DbError β}
    (hx : NoViolation x) (hf : ∀ a, NoViolation (f a)) : NoViolation (x >>= f) := by
  cases x with
  | error y =>
    intro z hz
    cases hz
    exact hx y rfl
  | ok a => exact hf a

theorem noViolation_packU32 (n : Nat) : NoViolation (packU32 n) := by
  unfold packU32
  split
  · exact NoViolation.ok _
  · rintro y hy ⟨msg, rfl⟩
    cases hy

theorem noViolation_packCommitTs (ts : Int) : NoViolation (packCommitTs ts) := by
  unfold packCommitTs
  split
  · exact NoViolation.ok _
  · rintro y hy ⟨msg, rfl⟩
    cases hy

omit [DecidableEq V] in
theorem noViolation_encodeBatches (H : Host V) : ∀ bs : List (Batch V),
    NoViolation (encodeBatches H bs)
  | [] => NoViolation.ok _
  | _ :: bs => ((noViolation_packU32 _).bind fun _ => (noViolation_packU32 _).bind fun _ =>
      NoViolation.ok _).bind fun _ => (noViolation_encodeBatches H bs).bind fun _ => NoViolation.ok _

omit [DecidableEq V] in
theorem noViolation_buildRecord (H : Host V) (ts : Int) (bs : List (Batch V)) :
    NoViolation (buildRecord H ts bs) :=
  ((noViolation_packCommitTs ts).bind fun _ => (noViolation_packU32 _).bind fun _ =>
    (noViolation_encodeBatches H bs).bind fun _ => NoViolation.ok _).bind fun _ =>
      (noViolation_packU32 _).bind fun _ => NoViolation.ok _

omit [DecidableEq V] in
/-- `_write_commit` raises what the log raises. -/
theorem noViolation_writeCommit (H : Host V) (bs : List (Batch V)) (s : Session V) :
    NoViolation (writeCommit H bs s).1 := by
  have hlog : NoViolation (Wal.writeCommit H s.eng.walEnabled s.eng.disk.wal s.faults.append
      (s.eng.commitTs + 1) bs).1 := by
    unfold Wal.writeCommit
    split
    · exact NoViolation.ok _
    · split
      · exact NoViolation.ok _
      · cases hr : buildRecord H (s.eng.commitTs + 1) bs with
        | error y =>
          intro z hz
          cases hz
          exact noViolation_buildRecord H _ _ y hr
        | ok r =>
          cases s.faults.append with
          | none => exact NoViolation.ok _
          | some x =>
            rintro y hy ⟨msg, rfl⟩
            cases hy
  intro y hy
  unfold writeCommit at hy
  simp only at hy
  split at hy
  · rename_i z hz
    cases hy
    exact hlog _ hz
  · cases hy

/-- A flush whose check returns raises no uniqueness error. -/
theorem flush_admitted {H : Host V} {s : Session V} {t : String} {w : Flush V}
    (hc : Pristine s) (hcalm : s.faults.cancelAfter = none)
    (h : ∀ f, w.new = some f → enforcePure s.eng (some (w.tombed t
      { snapshotTs := s.eng.commitTs })) t f = .ok ()) : NoViolation (flush H t w s).1 := by
  rw [flush_eq]
  have hcommit : ∀ s₁ : Session V, ∀ x, s₁.txn = some x → NoViolation (commit H s₁).1 := by
    intro s₁ x hx y hy
    rw [commit_of_txn H hx] at hy
    have hw := noViolation_writeCommit H (commitBatches H x) s₁
    rcases hrun : writeCommit H (commitBatches H x) s₁ with ⟨r, s₂⟩
    rw [hrun] at hy hw
    cases r with
    | error z =>
      cases hy
      exact hw _ rfl
    | ok ts => cases hy
  have hguard : ∀ {p : Op V Unit} {s₁ : Session V}, NoViolation (p s₁).1 →
      NoViolation (Proc.onError p (fun s => { s with txn := none }) s₁).1 := by
    intro p s₁ hp y hy
    rw [Proc.onError] at hy
    rcases hrun : p s₁ with ⟨r, s₂⟩
    rw [hrun] at hy hp
    cases r with
    | error z =>
      cases hy
      exact hp _ rfl
    | ok u => cases hy
  refine hguard ?_
  cases hn : w.new with
  | none =>
    exact hcommit { s with txn := some (w.tombed t { snapshotTs := s.eng.commitTs }) } _ rfl
  | some f =>
    have hreads := enforceUnique_reads (s := { s with txn := some (w.tombed t
      { snapshotTs := s.eng.commitTs }) }) ⟨hc.coherent, hc.alone⟩ (Quiet.refl _) t f
    have hval := hreads.value.calm hcalm
    rw [h f hn] at hval
    have hq := hreads.quiet
    rcases hrun : enforceUnique t f { s with txn := some (w.tombed t
      { snapshotTs := s.eng.commitTs }) } with ⟨v, s₁⟩
    rw [hrun] at hval hq
    cases hval
    have hbuf : bufferNew t (some f) { s with txn := some (w.tombed t
        { snapshotTs := s.eng.commitTs }) } =
          onTxn (fun x => x.bufferAppend t f) s₁ := Proc.bind_of_ok hrun
    have hbuf' : bufferNew t (some f) { s with txn := some (w.tombed t
        { snapshotTs := s.eng.commitTs }) } =
          (.ok (), { s₁ with txn := s₁.txn.map fun x => x.bufferAppend t f }) := hbuf
    rw [Proc.bind_of_ok hbuf']
    refine hcommit _ ((w.tombed t { snapshotTs := s.eng.commitTs }).bufferAppend t f) ?_
    rw [hq.txn]
    rfl

/-! ## 4. Keys of matched rows -/

section Keys

variable {i : TableInfo V} {p : List String} {rows l : List (Row V)}

omit [DecidableEq V] in
/-- Among rows that obey the constraints, a row has the key of one of some rows just when it is
one of them. -/
theorem mem_keys_iff (h : Obeys i rows) (hp : i.constraints.primaryKey = some p) (hne : p ≠ [])
    (hl : ∀ r ∈ l, r ∈ rows) {r : Row V} (hr : r ∈ rows) :
    keyOf p r ∈ (l.map (keyOf p)).filter Key.nonNull ↔ r ∈ l := by
  have hinj : ∀ a ∈ rows, ∀ b ∈ rows, keyOf p a = keyOf p b → a = b := by
    have hd := h.distinct p (List.mem_append_left _ (by rw [hp]; exact List.mem_singleton_self p)) hne
    rw [Distinct, List.filter_eq_self.mpr] at hd
    · exact fun a ha b hb => List.inj_on_of_nodup_map hd ha hb
    · intro k hk
      obtain ⟨a, ha, rfl⟩ := List.mem_map.mp hk
      exact h.primary p hp a ha
  constructor
  · intro hk
    obtain ⟨a, ha, heq⟩ := List.mem_map.mp (List.mem_filter.mp hk).1
    rw [← hinj a (hl a ha) r hr heq]
    exact ha
  · exact fun hmem => List.mem_filter.mpr ⟨List.mem_map_of_mem hmem, h.primary p hp r hr⟩

end Keys

end RyuDB.Engine
