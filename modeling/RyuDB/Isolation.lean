/-
# What a request does to the rows others see

A request runs alone under the engine's lock, so an interleaving of connections is a sequence of
effects.  `Change` says what one of them does to the rows everybody sees and to the transaction of
its own connection: nothing, or a write set is buffered, or a write set is laid over the committed
rows, which is the only way these rows change.  `effect_others` says what it does to the other
open transactions: nothing at all, unless it is a RESTORE.
-/
import RyuDB.Sound

namespace RyuDB.Engine

open Versioned

variable {V : Type}

/-! ## 1. The other transactions -/

/-- Any statement but RESTORE TO SNAPSHOT. -/
def NoRestore : Stmt V → Prop
  | .restoreToSnapshot _ => False
  | _ => True

section Others

variable [DecidableEq V] {H : Host V} {st : Stmt V} {s s' : Session V}

theorem Kept.seen {e e' : Engine V} (h : Kept e e') (x : Option (Transaction V)) (t : String) :
    seen e' x t = seen e x t := seen_congr h.catalog h.parquet h.delta x t

/-- `_write_commit` keeps the view of a transaction that began before it. -/
theorem Wrote.others {bs : List (Batch V)} {p : Except DbError Int × Session V}
    (hw : Wrote bs s p) : s.eng.commitTs ≤ p.2.eng.commitTs ∧ ∀ (x : Transaction V) t,
      x.snapshotTs ≤ s.eng.commitTs → seen p.2.eng (some x) t = seen s.eng (some x) t := by
  rcases hw.cases with ⟨-, hc⟩ | ⟨-, hk⟩
  · refine ⟨by rw [hc.commitTs]; omega, fun x t hx => ?_⟩
    exact seen_at_commit hx hc
  · exact ⟨hk.counter, fun x t _ => hk.seen _ _⟩

/-- **Nobody else's view moves.** -/
theorem effect_others (he : Effect H st s s') (hst : NoRestore st) :
    s.eng.commitTs ≤ s'.eng.commitTs ∧ ∀ (x : Transaction V) t,
      x.snapshotTs ≤ s.eng.commitTs → seen s'.eng (some x) t = seen s.eng (some x) t := by
  cases he with
  | quiet hq => exact ⟨hq.kept.counter, fun x t _ => hq.kept.seen _ _⟩
  | @write s₁ t w bs hx hq hbs ht hw =>
    obtain ⟨hts, hview⟩ := (writeCommit_wrote H bs s₁).others
    rw [hq.commitTs] at hts hview
    exact ⟨hts, fun x t hx => (hview x t hx).trans (hq.kept.seen _ _)⟩
  | buffer hx hq hu hd hw =>
    have hk := hq.kept
    exact ⟨hk.counter, fun x t _ => hk.seen _ _⟩
  | begin _ hx => exact ⟨le_refl _, fun _ _ _ => rfl⟩
  | @commit x hst' hx =>
    have hwrote := writeCommit_wrote H (commitBatches H x) s
    have h := hwrote.others
    rw [commit_of_txn H hx]
    generalize writeCommit H (commitBatches H x) s = p at hwrote h
    cases hwrote <;> exact h
  | rollback hx => exact ⟨le_refl _, fun _ _ _ => rfl⟩
  | snapshot name =>
    have hk : Kept s.eng { s.eng with snapshots := s.eng.snapshots.set name s.eng.commitTs } :=
      ⟨rfl, rfl, rfl, le_refl _⟩
    exact ⟨le_refl _, fun x t _ => hk.seen _ _⟩
  | restore hst' hx hn hle =>
    rw [hst'] at hst
    exact hst.elim

/-- RESTORE does not open a transaction. -/
theorem effect_restore_txn {name : String} (he : Effect H (.restoreToSnapshot name) s s')
    (hx : s.txn = none) : s'.txn = none := by
  cases he with
  | quiet hq => rw [hq.txn, hx]
  | @write s₁ t w bs _ hq _ _ _ =>
    have hwrote := writeCommit_wrote H bs s₁
    generalize writeCommit H bs s₁ = p at hwrote
    cases hwrote <;> exact hq.txn.trans hx
  | buffer hsome _ _ _ _ => rw [hx] at hsome; cases hsome
  | begin hst _ => cases hst
  | commit hst _ => cases hst
  | rollback _ => rfl
  | snapshot _ => exact hx
  | restore _ hnone _ hle =>
    obtain ⟨wal, snapshots, hs', -⟩ := restoreTo_state hnone hle
    rw [hs']
    exact hx

/-! ## 2. The committed rows and the own transaction -/

/-- The committed rows after the write set of `y` was laid over them. -/
def Lays (s s' : Session V) (y : Transaction V) : Prop :=
  ∀ u i, s.eng.catalog.tables.get? u = some i → seen s'.eng none u =
    overlay (keyCols i) y u (s.eng.commitTs + 1) (seen s.eng none u)

/-- What a request does to the committed rows and to its own transaction. -/
inductive Change (H : Host V) (st : Stmt V) (s s' : Session V) : Prop
  /-- The transaction stayed or was dropped. -/
  | idle (hview : ∀ t, seen s'.eng none t = seen s.eng none t)
      (hx : s'.txn = s.txn ∨ s'.txn = none)
  | begin (hst : st = .begin) (hnone : s.txn = none)
      (hview : ∀ t, seen s'.eng none t = seen s.eng none t)
      (hx : s'.txn = some { snapshotTs := s.eng.commitTs })
  | buffer {t : String} {w : Flush V} {x : Transaction V}
      (hview : ∀ t, seen s'.eng none t = seen s.eng none t) (hx : s.txn = some x)
      (hx' : s'.txn = some (w.buffered t x)) (hu : w.update = none)
      (hd : w.delete = none ∨ ∃ n, st = .delete n ∧ n.table = t) (hw : w.Ok H s.eng x t)
  | write {t : String} {w : Flush V} (hx' : s'.txn = none)
      (hlay : Lays s s' (w.buffered t { snapshotTs := s.eng.commitTs }))
      (hw : w.Ok H s.eng { snapshotTs := s.eng.commitTs } t)
  | commit {x : Transaction V} (hst : st = .commit) (hx : s.txn = some x) (hx' : s'.txn = none)
      (hlay : Lays s s' x)

/-- A commit that went through lays its write set over the committed rows; one that raised changes
nothing. -/
theorem Wrote.lays {bs : List (Batch V)} {y : Transaction V} {p : Except DbError Int × Session V}
    (hw : Wrote bs s p) (hs : Sound s.eng) (hbs : Carries bs y) :
    (∃ ts, p.1 = .ok ts) ∧ Lays s p.2 y ∨
      (∃ z, p.1 = .error z) ∧ ∀ t, seen p.2.eng none t = seen s.eng none t := by
  rcases hw.cases with ⟨hok, hc⟩ | ⟨herr, hk⟩
  · exact Or.inl ⟨hok, fun u i hi => seen_commit hs.ok.delta hs.counter hc hbs hi⟩
  · exact Or.inr ⟨herr, fun t => hk.seen none t⟩

/-- **Every request makes one of the changes.** -/
theorem effect_change (he : Effect H st s s') (hs : Sound s.eng) (ha : s.faults.writesBack = false)
    (hx : TxnOk? s.eng.catalog s.txn) (hk : ∀ t, erases st = some t → Keyed s.eng t)
    (hst : NoRestore st) : Change H st s s' := by
  cases he with
  | quiet hq => exact Change.idle (fun t => hq.kept.seen none t) (Or.inl hq.txn)
  | @write s₁ t w bs hnone hq hbs ht hw =>
    have hwrote := writeCommit_wrote H bs s₁
    have htxn : (writeCommit H bs s₁).2.txn = none := by
      generalize writeCommit H bs s₁ = p at hwrote
      cases hwrote <;> exact hq.txn.trans hnone
    have hok := hw hs.ok (hk t)
    rcases hwrote.lays (hs.quiet ha hq) hbs with ⟨-, hlay⟩ | ⟨-, hsame⟩
    · refine Change.write htxn (fun u i hi => ?_) hok
      rw [hlay u i (by rw [hq.catalog]; exact hi), hq.commitTs, hq.kept.seen]
    · exact Change.idle (fun t => (hsame t).trans (hq.kept.seen none t)) (Or.inr htxn)
  | buffer hsome hq hu hd hw =>
    have hkept := hq.kept
    exact Change.buffer (fun t => hkept.seen none t) hsome rfl hu hd (hw hs.ok (hx _ hsome))
  | begin hst' hnone => exact Change.begin hst' hnone (fun _ => rfl) rfl
  | @commit x hst' hsome =>
    have hwrote := writeCommit_wrote H (commitBatches H x) s
    have hlays := hwrote.lays hs (commitBatches_carries H x)
    rw [commit_of_txn H hsome]
    generalize writeCommit H (commitBatches H x) s = p at hwrote hlays
    cases hwrote with
    | ok wal =>
      rcases hlays with ⟨-, hlay⟩ | ⟨⟨z, hz⟩, -⟩
      · exact Change.commit hst' hsome rfl hlay
      · cases hz
    | error z wal =>
      rcases hlays with ⟨⟨ts, hts⟩, -⟩ | ⟨-, hsame⟩
      · cases hts
      · exact Change.idle hsame (Or.inl rfl)
  | rollback hsome => exact Change.idle (fun _ => rfl) (Or.inr rfl)
  | snapshot name =>
    have hkept : Kept s.eng { s.eng with snapshots := s.eng.snapshots.set name s.eng.commitTs } :=
      ⟨rfl, rfl, rfl, le_refl _⟩
    exact Change.idle (fun t => hkept.seen none t) (Or.inl rfl)
  | restore hst' hnone hn hle =>
    rw [hst'] at hst
    exact hst.elim

/-! ## 3. The view of the own transaction -/

variable {e : Engine V} {x : Transaction V} {t : String} {w : Flush V}

/-- Tables a write set does not touch. -/
theorem seen_buffered_other {u : String} (h : u ≠ t) :
    seen e (some (w.buffered t x)) u = seen e (some x) u := by
  unfold seen
  cases e.catalog.tables.get? u with
  | none => rfl
  | some i =>
    simp only [insertEntries, tombEntries, Flush.bufferBatches_buffered,
      Flush.tombstones_buffered, Flush.tombstones_tombed, Flush.snapshotTs_buffered, if_neg h,
      List.append_nil]

/-- The tombstone of a DELETE leaves a part of the view. -/
theorem seen_tombed_sublist (hd : DeltaOk e) (hx : x.snapshotTs < insInf) {i : TableInfo V}
    (hi : e.catalog.tables.get? t = some i) (hu : w.update = none) :
    List.Sublist (seen e (some (w.tombed t x)) t) (seen e (some x) t) := by
  obtain ⟨u, d, n⟩ := w
  simp only at hu
  subst hu
  cases d with
  | none => exact List.Sublist.refl _
  | some g =>
    change List.Sublist (seen e (some (x.tombstoneAppend t g false)) t) _
    rw [seen_tombstoneAppend hd hx hi]
    exact List.filter_sublist

/-- The view with a write set buffered: what its tombstones leave, and its rows. -/
theorem seen_buffered (hd : DeltaOk e) (hx : x.snapshotTs < insInf) {i : TableInfo V}
    (hi : e.catalog.tables.get? t = some i) : ∃ rows, List.Sublist rows
      ((w.new.toList.flatMap Frame.rows).map fun r => (insInf, r)) ∧
        seen e (some (w.buffered t x)) t = seen e (some (w.tombed t x)) t ++ rows := by
  unfold Flush.buffered
  cases w.new with
  | none => exact ⟨[], List.nil_sublist _, (List.append_nil _).symm⟩
  | some f =>
    refine ⟨_, ?_, seen_bufferAppend hd (by simpa using hx) hi f⟩
    simp only [Option.toList_some, List.flatMap_singleton]
    exact List.filter_sublist.map _

end Others

end RyuDB.Engine
