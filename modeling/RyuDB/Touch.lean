/-
# What a statement can change, whatever the cache holds

`Effect` says what a statement does when the scan cache is right.  `Touch` asks nothing of the
session: reading code moves it quietly, and a statement then changes the slot, hands batches to
`_write_commit` once, sets a snapshot, or restores.  `sql_touch` is the step lemma for results about
runs in which the catalog and the cache are treated carelessly; `Trail.sql` of `Atomic` is its form
as a frame rule.  `sql_confined` is about a session inside a transaction, where only COMMIT and
ROLLBACK touch the delta or replace the transaction.
-/
import RyuDB.Atomic

namespace RyuDB

variable {V : Type}

namespace Engine

/-! ## 1. Touches -/

/-- How a statement can move the session. -/
inductive Touch (H : Host V) (s : Session V) : Session V → Prop
  /-- At most the slot changed: BEGIN, ROLLBACK, a buffered write, a raise. -/
  | slot {s₁ : Session V} (hq : Quiet s s₁) (x : Option (Transaction V)) :
      Touch H s { s₁ with txn := x }
  /-- Batches were handed to `_write_commit`. -/
  | write {s₁ : Session V} (hq : Quiet s s₁) (bs : List (Batch V)) (x : Option (Transaction V)) :
      Touch H s { (writeCommit H bs s₁).2 with txn := x }
  | snapshot {s₁ : Session V} (hq : Quiet s s₁) (name : String) :
      Touch H s { s₁ with eng := { s₁.eng with
        snapshots := s₁.eng.snapshots.set name s₁.eng.commitTs } }
  | restore {s₁ : Session V} (hq : Quiet s s₁) {target : Int} (hx : s₁.txn = none)
      (hle : target ≤ s₁.eng.commitTs) : Touch H s (restoreTo target s₁).2

/-- Whatever the code returns or raises, it moved the session by a touch. -/
def Touches {α : Type} (H : Host V) (x : Op V α) (s : Session V) : Prop := Touch H s (x s).2

section Rules

variable {H : Host V} {s s₁ s' : Session V} {t : String}

theorem Quiet.touch (hq : Quiet s s₁) : Touch H s s₁ := Touch.slot hq s₁.txn

/-- A session that differs from a quiet one in the slot. -/
theorem Aside.touch (ha : Aside s s₁) : Touch H s s₁ := by
  have h : Touch H s { { s₁ with txn := s.txn } with txn := s₁.txn } :=
    Touch.slot (Quiet.withTxn ha s.txn) s₁.txn
  exact h

theorem Touch.after (hq : Quiet s s₁) (h : Touch H s₁ s') : Touch H s s' := by
  cases h with
  | slot hq' x => exact Touch.slot (Quiet.trans _ _ _ hq hq') x
  | write hq' bs x => exact Touch.write (Quiet.trans _ _ _ hq hq') bs x
  | snapshot hq' name => exact Touch.snapshot (Quiet.trans _ _ _ hq hq') name
  | restore hq' hx hle => exact Touch.restore (Quiet.trans _ _ _ hq hq') hx hle

theorem Touches.of_keeps {α : Type} {x : Op V α} (h : Proc.Keeps Quiet x) : Touches H x s :=
  (h s).touch

/-- Reading code in front of a change. -/
theorem Touches.bind {α β : Type} {x : Op V α} {f : α → Op V β} (hx : Proc.Keeps Quiet x)
    (hf : ∀ a s₁, Quiet s s₁ → Touches H (f a) s₁) : Touches H (x >>= f) s := by
  unfold Touches
  rcases h : x s with ⟨r, s₁⟩
  have hq : Quiet s s₁ := hx.apply h
  cases r with
  | error y =>
    rw [Proc.bind_of_error h]
    exact hq.touch
  | ok a =>
    rw [Proc.bind_of_ok h]
    exact Touch.after hq (hf a s₁ hq)

/-- Code whose result is computed from what it returned. -/
theorem Touches.map {α β : Type} {x : Op V α} (h : Touches H x s) (g : α → Op V β)
    (hg : ∀ a, ∃ b, g a = pure b) : Touches H (x >>= g) s := by
  unfold Touches at h ⊢
  rcases hx : x s with ⟨r, s₁⟩
  rw [hx] at h
  cases r with
  | error y =>
    rw [Proc.bind_of_error hx]
    exact h
  | ok a =>
    obtain ⟨b, hb⟩ := hg a
    rw [Proc.bind_of_ok hx, hb]
    exact h

theorem writeCommit_touches (bs : List (Batch V)) : Touches H (writeCommit H bs) s := by
  have h : Touch H s { (writeCommit H bs s).2 with txn := (writeCommit H bs s).2.txn } :=
    Touch.write (Quiet.refl s) bs _
  exact h

theorem appendFrame_touches (f : Frame V) : Touches H (appendFrame H t f) s := by
  unfold Touches
  cases hx : s.txn with
  | none =>
    rw [appendFrame_auto H hx]
    exact writeCommit_touches _
  | some x =>
    rw [appendFrame_txn H hx]
    exact Touch.slot (Quiet.refl s) _

theorem appendTombstone_touches (g : Frame V) : Touches H (appendTombstone H t g) s := by
  unfold Touches
  cases hx : s.txn with
  | none =>
    rw [appendTombstone_auto H hx]
    exact writeCommit_touches _
  | some x =>
    rw [appendTombstone_txn H hx]
    exact Touch.slot (Quiet.refl s) _

theorem commit_touches : Touches H (commit H) s := by
  unfold Touches
  cases hx : s.txn with
  | none =>
    rw [commit, Proc.get_bind, hx]
    exact (Quiet.refl s).touch
  | some x =>
    rw [commit_of_txn H hx]
    have hw := writeCommit_touches (H := H) (s := s) (commitBatches H x)
    rcases h : writeCommit H (commitBatches H x) s with ⟨r, s₁⟩
    cases r with
    | error y =>
      rw [Touches, h] at hw
      exact hw
    | ok ts =>
      have hok := Touch.write (H := H) (Quiet.refl s) (commitBatches H x) none
      rw [h] at hok
      exact hok

theorem restoreTo_touches (target : Int) : Touches H (restoreTo target) s := by
  unfold Touches
  cases hx : s.txn with
  | some x =>
    rw [restoreTo, Proc.get_bind, hx]
    exact (Quiet.refl s).touch
  | none =>
    by_cases hle : target ≤ s.eng.commitTs
    · exact Touch.restore (Quiet.refl s) hx hle
    · rw [restoreTo, Proc.get_bind, hx]
      simp only
      rw [if_pos (by omega)]
      exact (Quiet.refl s).touch

theorem restore_touches (name : String) : Touches H (restore name) s := by
  unfold Touches
  rw [restore, Proc.get_bind]
  cases s.eng.snapshots.get? name with
  | none => exact (Quiet.refl s).touch
  | some ts => exact restoreTo_touches ts

variable [DecidableEq V]

/-- The implicit transaction hands its batches to `_write_commit`, or nothing. -/
theorem flush_touches (w : Flush V) : Touches H (flush H t w) s := by
  unfold Touches
  rw [flush_eq]
  -- up to the COMMIT only the slot and the cache move
  have hin : Aside s { s with txn := some (w.tombed t { snapshotTs := s.eng.commitTs }) } :=
    Quiet.refl _
  rcases hrun : (bufferNew t w.new >>= fun _ => commit H)
    { s with txn := some (w.tombed t { snapshotTs := s.eng.commitTs }) } with ⟨r, s₁⟩
  have hchange : Touch H s s₁ ∧ ∀ x, Touch H s { s₁ with txn := x } := by
    rcases hb : bufferNew t w.new
      { s with txn := some (w.tombed t { snapshotTs := s.eng.commitTs }) } with ⟨r', s₂⟩
    have ha : Aside s s₂ := Aside.trans _ _ _ hin ((keeps_bufferNew t w.new).apply hb)
    cases r' with
    | error y =>
      rw [Proc.bind_of_error hb] at hrun
      cases hrun
      have hq : Quiet s { s₁ with txn := s.txn } := Quiet.withTxn ha s.txn
      exact ⟨ha.touch, fun x => Touch.slot hq x⟩
    | ok u =>
      rw [Proc.bind_of_ok hb] at hrun
      have hq : Quiet s { s₂ with txn := s.txn } := Quiet.withTxn ha s.txn
      have hall : ∀ (bs : List (Batch V)) x, Touch H s { (writeCommit H bs s₂).2 with txn := x } := by
        intro bs x
        have h := Touch.write (H := H) hq bs x
        rw [(writeCommit_txn H (s := s₂) bs s.txn).1] at h
        exact h
      cases hx : s₂.txn with
      | none =>
        rw [commit, Proc.get_bind, hx] at hrun
        cases hrun
        exact ⟨ha.touch, fun x => Touch.slot hq x⟩
      | some x =>
        rw [commit_of_txn H hx] at hrun
        rcases hw : writeCommit H (commitBatches H x) s₂ with ⟨v, s₃⟩
        have h := hall (commitBatches H x)
        rw [hw] at h hrun
        cases v with
        | error y =>
          cases hrun
          exact ⟨h s₁.txn, h⟩
        | ok ts =>
          cases hrun
          exact ⟨h none, h⟩
  cases r with
  | ok u =>
    simp only [Proc.onError, hrun]
    exact hchange.1
  | error y =>
    simp only [Proc.onError, hrun]
    exact hchange.2 none

end Rules

/-! ## 2. Statements -/

section Statements

variable [DecidableEq V] {H : Host V} {s : Session V}

omit [DecidableEq V] in
theorem closed_touches : Closed fun {α : Type} (x : Op V α) => ∀ s, Touches H x s where
  read hx _ := Touches.of_keeps hx
  bind hx hf _ := Touches.bind hx fun a s₁ _ => hf a s₁
  map _ hx s := (hx s).map _ fun _ => ⟨_, rfl⟩

theorem shaped_touches {t : String} : Shaped H t (fun {α : Type} (x : Op V α) => ∀ s, Touches H x s)
    (fun {α : Type} (x : Op V α) => ∀ s, Touches H x s) where
  closed := closed_touches
  closedOut := closed_touches
  refuse statement _ hf _ := Touches.bind (keeps_refuseInTxn statement) fun _ s₁ _ => hf s₁
  appendFrame f _ := appendFrame_touches f
  appendTombstone g _ := appendTombstone_touches g
  flush w _ := flush_touches w

/-- **Every statement makes at most one change.** -/
theorem sql_touch (st : Stmt V) : Touch H s (sql H st s).2 := by
  cases st with
  | select q =>
    exact Touches.of_keeps (Proc.Keeps.bind Quiet.trans (keeps_exec q) fun _ =>
      Proc.Keeps.pure Quiet.refl _)
  | insert n => exact shaped_touches.sql rfl s
  | insertSelect n => exact shaped_touches.sql rfl s
  | delete n => exact shaped_touches.sql rfl s
  | update n => exact shaped_touches.sql rfl s
  | merge n => exact shaped_touches.sql rfl s
  | begin =>
    refine Touches.map (x := begin_) ?_ _ fun _ => ⟨.none, rfl⟩
    unfold Touches begin_
    cases hx : s.txn with
    | none => exact Touch.slot (Quiet.refl s) _
    | some x => exact (Quiet.refl s).touch
  | commit => exact commit_touches.map _ fun _ => ⟨.none, rfl⟩
  | rollback =>
    refine Touches.map (x := rollback) ?_ _ fun _ => ⟨.none, rfl⟩
    unfold Touches rollback
    cases hx : s.txn with
    | none => exact (Quiet.refl s).touch
    | some x => exact Touch.slot (Quiet.refl s) none
  | createSnapshot name =>
    refine Touches.map (x := snapshot name) ?_ _ fun _ => ⟨.none, rfl⟩
    exact Touch.snapshot (Quiet.refl s) name
  | restoreToSnapshot name => exact (restore_touches name).map _ fun _ => ⟨.none, rfl⟩
  | rejected e => exact (Quiet.refl s).touch

end Statements

/-! ## 3. Inside a transaction -/

/-- Inside a transaction the code leaves the delta, and the transaction stays with its snapshot. -/
def Confined {α : Type} (x : Op V α) : Prop := ∀ s y, s.txn = some y →
  (x s).2.eng.delta = s.eng.delta ∧ ∃ y', (x s).2.txn = some y' ∧ y'.snapshotTs = y.snapshotTs

section Confined

variable {H : Host V} {t : String}

theorem Confined.of_keeps {α : Type} {x : Op V α} (h : Proc.Keeps Quiet x) : Confined x :=
  fun s y hy => ⟨(h s).delta, y, (h s).txn.trans hy, rfl⟩

theorem Confined.bind {α β : Type} {x : Op V α} {f : α → Op V β} (hx : Confined x)
    (hf : ∀ a, Confined (f a)) : Confined (x >>= f) := by
  intro s y hy
  obtain ⟨hd, y₁, hy₁, hts⟩ := hx s y hy
  rcases h : x s with ⟨r, s₁⟩
  rw [h] at hd hy₁
  cases r with
  | error e =>
    rw [Proc.bind_of_error h]
    exact ⟨hd, y₁, hy₁, hts⟩
  | ok a =>
    rw [Proc.bind_of_ok h]
    obtain ⟨hd', y₂, hy₂, hts'⟩ := hf a s₁ y₁ hy₁
    exact ⟨hd'.trans hd, y₂, hy₂, hts'.trans hts⟩

theorem Confined.map {α β : Type} {x : Op V α} (hx : Confined x) (f : α → β) :
    Confined (do let a ← x; return f a : Op V β) :=
  hx.bind fun _ => Confined.of_keeps (Proc.Keeps.pure Quiet.refl _)

/-- Code behind the check that no transaction is open does not run. -/
theorem confined_refuse {α : Type} (statement : String) (f : Unit → Op V α) :
    Confined (refuseInTxn statement >>= f) := by
  intro s y hy
  have hraise : ∃ e, refuseInTxn statement s = (.error e, s) := by
    rw [refuseInTxn, Proc.get_bind, hy]
    exact ⟨_, rfl⟩
  obtain ⟨e, he⟩ := hraise
  rw [Proc.bind_of_error he]
  exact ⟨rfl, y, hy, rfl⟩

theorem confined_appendFrame (f : Frame V) : Confined (appendFrame H t f) := by
  intro s y hy
  rw [appendFrame_txn H hy]
  exact ⟨rfl, _, rfl, rfl⟩

theorem confined_appendTombstone (g : Frame V) : Confined (appendTombstone H t g) := by
  intro s y hy
  rw [appendTombstone_txn H hy]
  exact ⟨rfl, _, rfl, rfl⟩

theorem confined_restore (name : String) : Confined (restore name : Op V Unit) := by
  intro s y hy
  have hraise : (restore name s).2 = s := by
    rw [restore, Proc.get_bind]
    cases s.eng.snapshots.get? name with
    | none => rfl
    | some ts =>
      simp only
      rw [restoreTo, Proc.get_bind, hy]
      rfl
  rw [hraise]
  exact ⟨rfl, y, hy, rfl⟩

theorem closed_confined : Closed fun {α : Type} (x : Op V α) => Confined x where
  read := Confined.of_keeps
  bind hx hf := (Confined.of_keeps hx).bind hf
  map f hx := hx.map f

variable [DecidableEq V]

theorem shaped_confined : Shaped H t (fun {α : Type} (x : Op V α) => Confined x)
    (fun _ => True) where
  closed := closed_confined
  closedOut := ⟨fun _ => trivial, fun _ _ => trivial, fun _ _ => trivial⟩
  refuse statement f _ := confined_refuse statement f
  appendFrame f := confined_appendFrame f
  appendTombstone g := confined_appendTombstone g
  flush _ := trivial

/-- **Inside a transaction nothing but COMMIT and ROLLBACK** touches the delta or replaces the
transaction. -/
theorem sql_confined {st : Stmt V} (hc : st ≠ .commit) (hr : st ≠ .rollback) :
    Confined (sql H st) := by
  cases st with
  | select q => exact Confined.of_keeps (Proc.Keeps.bind Quiet.trans (keeps_exec q) fun _ =>
      Proc.Keeps.pure Quiet.refl _)
  | insert n => exact shaped_confined.sql rfl
  | insertSelect n => exact shaped_confined.sql rfl
  | delete n => exact shaped_confined.sql rfl
  | update n => exact shaped_confined.sql rfl
  | merge n => exact shaped_confined.sql rfl
  | begin =>
    refine Confined.map (x := begin_) (fun s y hy => ?_) _
    rw [begin_, hy]
    exact ⟨rfl, y, hy, rfl⟩
  | commit => exact absurd rfl hc
  | rollback => exact absurd rfl hr
  | createSnapshot name => exact Confined.map (x := snapshot name) (fun s y hy => ⟨rfl, y, hy, rfl⟩) _
  | restoreToSnapshot name => exact (confined_restore name).map _
  | rejected e => exact Confined.of_keeps (Proc.Keeps.raise Quiet.refl e)

end Confined

end Engine

end RyuDB
