/-
# The engine behind a Postgres connection

A connection relies on two facts about `run_sql`: a statement that raised left a transaction in the
slot exactly when there was one before, and so did a statement that begins like a query.  This file
proves both of the engine (`sql_error_slot`, `sql_slot`) and puts the engine under the connection.

Other connections move the engine between two requests and a cancel event may drop a request from
the queue or stop it on its way; a `Turn` is what a request finds.
-/
import RyuDB.PgWire
import RyuDB.Admin
import RyuDB.NatHost

namespace RyuDB

variable {V : Type}

/-! ## 1. The slot -/

namespace Engine

/-- No transaction appears. -/
def StaysOut (s s' : Session V) : Prop := s.txn = none → s'.txn = none

/-- No transaction disappears. -/
def StaysIn (s s' : Session V) : Prop := s.txn.isSome = true → s'.txn.isSome = true

theorem StaysOut.trans (a b c : Session V) (h₁ : StaysOut a b) (h₂ : StaysOut b c) :
    StaysOut a c := fun h => h₂ (h₁ h)

theorem StaysIn.trans (a b c : Session V) (h₁ : StaysIn a b) (h₂ : StaysIn b c) :
    StaysIn a c := fun h => h₂ (h₁ h)

theorem Quiet.staysOut {s s' : Session V} (h : Quiet s s') : StaysOut s s' := fun hx =>
  h.txn.trans hx

theorem Quiet.staysIn {s s' : Session V} (h : Quiet s s') : StaysIn s s' := fun hx => by
  rw [h.txn]
  exact hx

theorem keeps_out {α : Type} {x : Op V α} (h : Proc.Keeps Quiet x) : Proc.Keeps StaysOut x :=
  fun s => (h s).staysOut

theorem keeps_in {α : Type} {x : Op V α} (h : Proc.Keeps Quiet x) : Proc.Keeps StaysIn x :=
  fun s => (h s).staysIn

/-- The slot keeps a transaction or stays empty. -/
structure Stays {α : Type} (x : Op V α) : Prop where
  out : Proc.Keeps StaysOut x
  inside : Proc.Keeps StaysIn x

theorem Stays.of_quiet {α : Type} {x : Op V α} (h : Proc.Keeps Quiet x) : Stays x :=
  ⟨keeps_out h, keeps_in h⟩

theorem Stays.bind {α β : Type} {x : Op V α} {f : α → Op V β} (hx : Stays x)
    (hf : ∀ a, Stays (f a)) : Stays (x >>= f) :=
  ⟨Proc.Keeps.bind StaysOut.trans hx.out fun a => (hf a).out,
    Proc.Keeps.bind StaysIn.trans hx.inside fun a => (hf a).inside⟩

theorem Stays.pure {α : Type} (a : α) : Stays (pure a : Op V α) :=
  .of_quiet (Proc.Keeps.pure Quiet.refl a)

theorem Stays.isSome {α : Type} {x : Op V α} (h : Stays x) (s : Session V) :
    (x s).2.txn.isSome = s.txn.isSome := by
  cases hx : s.txn with
  | none => rw [h.out s hx]
  | some y => exact h.inside s (by rw [hx]; rfl)

section Slot

variable {H : Host V} {t : String}

theorem writeCommit_slot (bs : List (Batch V)) (s : Session V) :
    (writeCommit H bs s).2.txn = s.txn := by
  unfold writeCommit
  dsimp only
  split
  · rfl
  · rfl

theorem stays_appendFrame (f : Frame V) : Stays (appendFrame H t f) where
  out := fun s hx => by
    rw [appendFrame_auto H hx]
    exact (writeCommit_slot _ s).trans hx
  inside := fun s hx => by
    obtain ⟨x, hx⟩ := Option.isSome_iff_exists.mp hx
    rw [appendFrame_txn H hx]
    rfl

theorem stays_appendTombstone (g : Frame V) : Stays (appendTombstone H t g) where
  out := fun s hx => by
    rw [appendTombstone_auto H hx]
    exact (writeCommit_slot _ s).trans hx
  inside := fun s hx => by
    obtain ⟨x, hx⟩ := Option.isSome_iff_exists.mp hx
    rw [appendTombstone_txn H hx]
    rfl

/-- A COMMIT that returned left no transaction. -/
theorem commit_slot {s s' : Session V} {u : Unit} (h : commit H s = (.ok u, s')) :
    s'.txn = none := by
  cases hx : s.txn with
  | none =>
    rw [commit, Proc.get_bind, hx] at h
    cases h
  | some x =>
    rw [commit_of_txn H hx] at h
    rcases hw : writeCommit H (commitBatches H x) s with ⟨r, s₁⟩
    rw [hw] at h
    cases r with
    | error e => cases h
    | ok ts =>
      cases h
      rfl

variable [DecidableEq V]

/-- The implicit transaction of an UPDATE or MERGE is over when `flush` ends. -/
theorem flush_slot (w : Flush V) (s : Session V) : (flush H t w s).2.txn = none := by
  rw [flush_eq, Proc.onError]
  rcases hrun : (bufferNew t w.new >>= fun _ => commit H)
    { s with txn := some (w.tombed t { snapshotTs := s.eng.commitTs }) } with ⟨r, s'⟩
  cases r with
  | error e => rfl
  | ok u =>
    obtain ⟨_, s₁, -, hc⟩ := Proc.bind_ok.mp hrun
    exact commit_slot hc

omit [DecidableEq V] in
/-- What stands behind the check for an explicit transaction runs only without one. -/
theorem stays_refuse {α : Type} {statement : String} {f : Unit → Op V α}
    (hf : Proc.Keeps StaysOut (f ())) : Stays (refuseInTxn statement >>= f) where
  out := Proc.Keeps.bind StaysOut.trans (keeps_out (keeps_refuseInTxn statement)) fun _ => hf
  inside := fun s hx => by
    obtain ⟨x, hx⟩ := Option.isSome_iff_exists.mp hx
    have hraise : ∃ e, refuseInTxn statement s = (.error e, s) := by
      rw [refuseInTxn, Proc.get_bind, hx]
      exact ⟨_, rfl⟩
    obtain ⟨e, he⟩ := hraise
    rw [Proc.bind_of_error he, hx]
    rfl

/-! ## 2. Statements -/

omit [DecidableEq V] in
theorem closed_stays : Closed fun {α : Type} (x : Op V α) => Stays x where
  read := Stays.of_quiet
  bind hx hf := Stays.bind (.of_quiet hx) hf
  map _ hx := Stays.bind hx fun _ => Stays.pure _

omit [DecidableEq V] in
theorem closed_out : Closed fun {α : Type} (x : Op V α) => Proc.Keeps StaysOut x where
  read := keeps_out
  bind hx hf := Proc.Keeps.bind StaysOut.trans (keeps_out hx) hf
  map _ hx := Proc.Keeps.bind StaysOut.trans hx fun _ => keeps_out (Proc.Keeps.pure Quiet.refl _)

theorem shaped_stays {t : String} : Shaped H t (fun {α : Type} (x : Op V α) => Stays x)
    (fun {α : Type} (x : Op V α) => Proc.Keeps StaysOut x) where
  closed := closed_stays
  closedOut := closed_out
  refuse _ _ := stays_refuse
  appendFrame := stays_appendFrame
  appendTombstone := stays_appendTombstone
  flush w s _ := flush_slot w s

omit [DecidableEq V] in
theorem stays_restore (name : String) : Stays (restore name : Op V Unit) := by
  have hto : ∀ target : Int, Stays (restoreTo target : Op V Unit) := fun target =>
    ⟨fun s hx => by
      by_cases hle : target ≤ s.eng.commitTs
      · obtain ⟨wal, snapshots, hs, -⟩ := restoreTo_state hx hle
        rw [hs]
        exact hx
      · rw [restoreTo_refused hx hle]
        exact hx,
    fun s hx => by
      obtain ⟨x, hx⟩ := Option.isSome_iff_exists.mp hx
      rw [restoreTo, Proc.get_bind, hx]
      change s.txn.isSome = true
      rw [hx]
      rfl⟩
  refine Stays.bind (.of_quiet (Proc.Keeps.get Quiet.refl)) fun s => ?_
  split
  · exact .of_quiet (Proc.Keeps.raise Quiet.refl _)
  · exact hto _

/-- The statements that open or close a transaction. -/
def endsTxn : Stmt V → Bool
  | .begin => true
  | .commit => true
  | .rollback => true
  | _ => false

/-- **Every other statement leaves a transaction in the slot, or the slot empty.** -/
theorem sql_slot {st : Stmt V} (h : endsTxn st = false) (s : Session V) :
    (sql H st s).2.txn.isSome = s.txn.isSome := by
  refine Stays.isSome ?_ s
  cases st with
  | select q => exact Stays.bind (.of_quiet (keeps_exec q)) fun _ => Stays.pure _
  | insert n => exact shaped_stays.sql rfl
  | insertSelect n => exact shaped_stays.sql rfl
  | delete n => exact shaped_stays.sql rfl
  | update n => exact shaped_stays.sql rfl
  | merge n => exact shaped_stays.sql rfl
  | begin => cases h
  | commit => cases h
  | rollback => cases h
  | createSnapshot name =>
    have hs : Stays (snapshot name : Op V Unit) := ⟨fun _ hx => hx, fun _ hx => hx⟩
    exact Stays.bind hs fun _ => Stays.pure _
  | restoreToSnapshot name => exact Stays.bind (stays_restore name) fun _ => Stays.pure _
  | rejected e => exact .of_quiet (Proc.Keeps.raise Quiet.refl e)

/-- **A statement that raised leaves a transaction in the slot, or the slot empty.** -/
theorem sql_error_slot {st : Stmt V} {s s' : Session V} {e : DbError}
    (h : sql H st s = (.error e, s')) : s'.txn.isSome = s.txn.isSome := by
  have hraised : ∀ {x : Op V Unit}, (x >>= fun _ => pure (.none : Result V)) s = (.error e, s') →
      x s = (.error e, s') := by
    intro x hx
    rcases Proc.bind_error.mp hx with hx | ⟨_, _, _, hx⟩
    · exact hx
    · cases hx
  by_cases hst : endsTxn st = false
  · have hs := sql_slot (H := H) hst s
    rw [h] at hs
    exact hs
  · cases st with
    | begin =>
      have hb := hraised h
      unfold begin_ at hb
      split at hb
      · cases hb
        rfl
      · cases hb
    | rollback =>
      have hb := hraised h
      unfold rollback at hb
      split at hb
      · cases hb
        rfl
      · cases hb
    | commit =>
      have hb := hraised h
      cases hx : s.txn with
      | none =>
        rw [commit, Proc.get_bind, hx] at hb
        cases hb
        rw [hx]
      | some x =>
        rw [commit_of_txn H hx] at hb
        have hw := writeCommit_slot (H := H) (commitBatches H x) s
        rcases hc : writeCommit H (commitBatches H x) s with ⟨r, s₁⟩
        rw [hc] at hb hw
        cases r with
        | ok ts => cases hb
        | error y =>
          cases hb
          rw [hw, hx]
    | _ => exact absurd rfl hst

end Slot

end Engine

/-! ## 3. The engine as a backend -/

namespace Pg

/-- What the connection relies on.  A statement that raised, and a statement that begins like a
query, leave a transaction in the slot exactly when there was one. -/
structure Backend.Lawful {σ V Tree : Type} (B : Backend σ V Tree) : Prop where
  error : ∀ s text e, (B.run s text).1 = .error e → B.inTxn (B.run s text).2 = B.inTxn s
  rows : ∀ s text, firstKeyword B.chars text ∈ rowHeads →
    B.inTxn (B.run s text).2 = B.inTxn s

/-- The tree of BEGIN, COMMIT or ROLLBACK. -/
def endsTxnTree : Ast V → Bool
  | .transaction => true
  | .commit _ => true
  | .rollback _ => true
  | _ => false

/-- How the engine reads a text: a text that begins like a query is never read as BEGIN, COMMIT or
ROLLBACK. -/
structure Reader (V : Type) (C : Chars) extends SqlText V where
  queries : ∀ text a, firstKeyword C text ∈ rowHeads → sqlglot text = .ok [a] →
    endsTxnTree a = false

/-- What a request finds: the engine as the other connections left it, what goes wrong on the way,
and whether a cancel event dropped it from the queue. -/
structure Turn (V : Type) where
  eng : Engine V
  faults : Faults
  dropped : Bool

/-- The engine, the slot of this connection and the turns to come. -/
structure Site (V : Type) where
  eng : Engine V
  txn : Option (Transaction V)
  turns : List (Turn V)

/-- The turn of the next request; without others on the server the engine is as it was left. -/
def Site.turn (s : Site V) : Turn V := s.turns.headD ⟨s.eng, {}, false⟩

/-- A tree other than theirs is not lowered to BEGIN, COMMIT or ROLLBACK. -/
theorem lower_endsTxn {a : Ast V} {st : Stmt V} (ha : endsTxnTree a = false)
    (h : a.lower = .ok st) : Engine.endsTxn st = false := by
  cases a with
  | transaction => cases ha
  | commit chain => cases ha
  | rollback savepoint => cases ha
  | other name => cases h
  | query plan =>
    obtain ⟨q, -, hq⟩ := bind_eq_ok.mp h
    cases hq
    rfl
  | insert args node =>
    obtain ⟨-, -, h⟩ := bind_eq_ok.mp h
    obtain ⟨n, -, h⟩ := bind_eq_ok.mp h
    cases n <;> cases h <;> rfl
  | delete args node =>
    obtain ⟨-, -, h⟩ := bind_eq_ok.mp h
    obtain ⟨n, -, h⟩ := bind_eq_ok.mp h
    cases h
    rfl
  | update args node =>
    obtain ⟨-, -, h⟩ := bind_eq_ok.mp h
    obtain ⟨n, -, h⟩ := bind_eq_ok.mp h
    cases h
    rfl
  | merge args node =>
    obtain ⟨-, -, h⟩ := bind_eq_ok.mp h
    obtain ⟨n, -, h⟩ := bind_eq_ok.mp h
    cases h
    rfl

section Run

variable [DecidableEq V] {C : Chars} (P : Reader V C) (H : Host V)

/-- `Server.run_sql` behind the queue of the worker. -/
def runSql (s : Site V) (text : String) : Except Failure (Result V) × Site V :=
  if s.turn.dropped then (.error .cancelled, ⟨s.turn.eng, s.txn, s.turns.tail⟩)
  else
    let r := P.sqlBody H text ⟨s.turn.eng, s.txn, s.turn.faults⟩
    (r.1.mapError .db, ⟨r.2.eng, r.2.txn, s.turns.tail⟩)

/-- The connection's backend. -/
def engineBackend {Tree : Type} (D : Dialect Tree C)
    (declareParts : String → Except Failure (String × String))
    (closeTarget : String → Except Failure (Option String)) (valToText : V → String)
    (maxRows maxCursors : Nat) : Backend (Site V) V Tree where
  chars := C
  dialect := D
  declareParts := declareParts
  closeTarget := closeTarget
  valToText := valToText
  maxRows := maxRows
  maxCursors := maxCursors
  run := runSql P H
  inTxn := fun s => s.txn.isSome

omit [DecidableEq V] in
/-- A text that begins like a query does not open or close a transaction. -/
theorem statement_of_rowHeads {text : String} (h : firstKeyword C text ∈ rowHeads) :
    Engine.endsTxn (P.statement text) = false := by
  have hparsed : Engine.endsTxn (P.parsed text) = false := by
    unfold SqlText.parsed
    cases ht : P.sqlglot text with
    | error e => rfl
    | ok trees =>
      match trees, ht with
      | [], _ => rfl
      | _ :: _ :: _, _ => rfl
      | [a], ht =>
        have ha : endsTxnTree a = false := P.queries text a h ht
        dsimp only [RyuDB.parse]
        cases hl : a.lower with
        | error e => rfl
        | ok st => exact lower_endsTxn ha hl
  unfold SqlText.statement
  split
  · split
    · rfl
    · rfl
    · exact hparsed
  · exact hparsed

/-- **The engine is a lawful backend.** -/
theorem engineBackend_lawful {Tree : Type} (D : Dialect Tree C)
    (declareParts : String → Except Failure (String × String))
    (closeTarget : String → Except Failure (Option String)) (valToText : V → String)
    (maxRows maxCursors : Nat) : (engineBackend P H D declareParts closeTarget valToText maxRows
      maxCursors).Lawful where
  error := by
    intro s text e h
    change (runSql P H s text).2.txn.isSome = s.txn.isSome
    change (runSql P H s text).1 = .error e at h
    unfold runSql at h ⊢
    by_cases hd : s.turn.dropped = true
    · rw [if_pos hd]
    · rw [if_neg hd] at h ⊢
      rcases hr : P.sqlBody H text ⟨s.turn.eng, s.txn, s.turn.faults⟩ with ⟨r, s'⟩
      rw [hr] at h
      cases r with
      | ok a => cases h
      | error x => exact Engine.sql_error_slot hr
  rows := by
    intro s text h
    change (runSql P H s text).2.txn.isSome = s.txn.isSome
    unfold runSql
    split
    · rfl
    · exact Engine.sql_slot (H := H) (statement_of_rowHeads P h)
        ⟨s.turn.eng, s.txn, s.turn.faults⟩

end Run

/-! ## 4. A server with two tables -/

/-- ASCII letters and digits. -/
def asciiChars : Chars where
  alpha := Char.isAlpha
  digit c := if c.isDigit then some (c.toNat - 48) else none

/-- A dialect for statements without parameters. -/
def textDialect : Dialect String asciiChars where
  parseOne := .ok
  fill tree _ := tree
  sql := id
  reprFloat _ := none
  rollback text tree _ hk h := by
    cases h
    exact hk

/-- `SELECT k FROM t`. -/
def selectKeys (t : String) : Query Nat :=
  ⟨[(t, none)], fun frames => .ok (frames.headD (keyFrame [])), id⟩

/-- The statements of the examples; nothing else parses. -/
def fewTrees (text : String) : Except DbError (List (Ast Nat)) :=
  if text = "SELECT k FROM t" then .ok [.query (.ok (selectKeys "t"))]
  else if text = "SELECT k FROM u" then .ok [.query (.ok (selectKeys "u"))]
  else if text = "INSERT INTO t VALUES (5)" then
    .ok [.insert [] (.ok (.inl ⟨"t", none, [[some 5]]⟩))]
  else if text = "BEGIN" then .ok [.transaction]
  else if text = "ROLLBACK" then .ok [.rollback false]
  else .error (.parse "invalid expression")

/-- A tree of `fewTrees` belongs to one of its texts. -/
theorem fewTrees_cases {text : String} {a : Ast Nat} (h : fewTrees text = .ok [a]) :
    (text = "SELECT k FROM t" ∨ text = "SELECT k FROM u") ∧ a.isWrite = false ∧
        endsTxnTree a = false ∨
      text = "INSERT INTO t VALUES (5)" ∨ text = "BEGIN" ∨ text = "ROLLBACK" := by
  unfold fewTrees at h
  split at h
  · rename_i ht
    cases h
    exact .inl ⟨.inl ht, rfl, rfl⟩
  · split at h
    · rename_i ht
      cases h
      exact .inl ⟨.inr ht, rfl, rfl⟩
    · split at h
      · rename_i ht
        exact .inr (.inl ht)
      · split at h
        · rename_i ht
          exact .inr (.inr (.inl ht))
        · split at h
          · rename_i ht
            exact .inr (.inr (.inr ht))
          · cases h

/-- How the examples' statements are read. -/
def fewReader : Reader Nat asciiChars where
  sqlglot := fewTrees
  snapshotRe _ := none
  restoreRe _ := none
  leadingWith text a hw h := by
    rcases fewTrees_cases h with ⟨rfl | rfl, -⟩ | rfl | rfl | rfl <;> exact absurd hw (by decide)
  leadingRead text a hr h := by
    rcases fewTrees_cases h with ⟨-, ha, -⟩ | rfl | rfl | rfl
    · exact ha
    all_goals exact absurd hr (by decide)
  queries text a hk h := by
    rcases fewTrees_cases h with ⟨-, -, ha⟩ | rfl | rfl | rfl
    · exact ha
    all_goals exact absurd hk (by decide)

/-- A data directory with the tables `t` and `u`, which hold 1 and 2. -/
def twoTables : Disk Nat where
  parquet := ((∅ : Dict _ _).set ⟨"d", "t.parquet"⟩ (keyParquet [1])).set
    ⟨"d", "u.parquet"⟩ (keyParquet [2])
  catalog := some [⟨"t", [⟨"d", "t.parquet"⟩], ⟨["k"], some ["k"], [], ∅⟩⟩,
    ⟨"u", [⟨"d", "u.parquet"⟩], ⟨["k"], some ["k"], [], ∅⟩⟩]
  wal := none

/-- A server on it. -/
def twoTableServer : Backend (Site Nat) Nat String :=
  engineBackend fewReader natHost textDialect
    (fun _ => .error (.pg "42601" "expected a cursor name after DECLARE"))
    (fun _ => .error (.pg "42601" "expected a cursor name or ALL after CLOSE")) toString 200000 16

/-- The server just started, nobody else on it. -/
def twoTableSite : Site Nat := ⟨Engine.start natHost (some "d") twoTables, none, []⟩

end Pg

end RyuDB
