/-
# From the text of a statement to the lock it runs under

`Engine.sql` gets a text.  It takes the read side of the lock when the first word of the text is
`SELECT`, `WITH`, `EXPLAIN` or `VALUES`, and the write side otherwise; what the text does is
decided afterwards, by the shorthand for snapshots or by what `parse` makes of the tree that the
SQL parser returns.  This file models both decisions and compares them.

The SQL parser is outside the repository: `SqlText.sqlglot` is the tree it returns, with the names
of the arguments that are set and what the rest of the lowering makes of the node, and two fields
say what is relied on.  A statement with a leading `WITH` has the argument `with_`, and one that
begins with `SELECT`, `EXPLAIN` or `VALUES` does not write.  `_build_update` and `_build_merge`
refuse `with_`; `_build_insert` and `_build_delete` do not.
-/
import RyuDB.Touch
import RyuDB.Sql
import RyuDB.NatHost

namespace RyuDB

variable {V : Type}

/-! ## 1. The first word -/

/-- `str.isspace` of one character. -/
def isSpace (c : Char) : Bool :=
  let n := c.toNat
  (9 ≤ n && n ≤ 13) || (28 ≤ n && n ≤ 32) || n = 0x85 || n = 0xa0 || n = 0x1680 ||
    (0x2000 ≤ n && n ≤ 0x200a) || n = 0x2028 || n = 0x2029 || n = 0x202f || n = 0x205f || n = 0x3000

/-- `str.upper` of one character, where the result is one ASCII letter; the dotless i and the long s
are the only other characters with such an upper case. -/
def upperChar (c : Char) : Char :=
  if c = 'ı' then 'I' else if c = 'ſ' then 'S' else c.toUpper

/-- `sql.lstrip()`. -/
def lstrip (text : String) : List Char := text.toList.dropWhile isSpace

/-- `s.split(None, 1)[0].upper()`, empty for a blank text. -/
def headWord (text : String) : String :=
  .ofList (((lstrip text).takeWhile fun c => !isSpace c).map upperChar)

/-- `_READ_HEADS`. -/
def readHeads : List String := ["SELECT", "WITH", "EXPLAIN", "VALUES"]

/-- The two sides of the lock. -/
inductive LockSide where
  | read
  | write
  deriving DecidableEq, Repr

/-- The side `Engine.sql` takes. -/
def lockSide (text : String) : LockSide := if headWord text ∈ readHeads then .read else .write

/-! ## 2. The statement -/

/-- The tree of one statement: the names of its arguments that are set and what the builder makes
of the rest. -/
inductive Ast (V : Type) where
  | query (plan : Except DbError (Query V))
  | insert (args : List String) (node : Except DbError (InsertNode V ⊕ InsertSelectNode V))
  | delete (args : List String) (node : Except DbError (DeleteNode V))
  | update (args : List String) (node : Except DbError (UpdateNode V))
  | merge (args : List String) (node : Except DbError (MergeNode V))
  | transaction
  | commit (chain : Bool)
  | rollback (savepoint : Bool)
  | other (name : String)

/-- The tree is of a kind that changes the engine. -/
def Ast.isWrite : Ast V → Bool
  | .query _ => false
  | .other _ => false
  | _ => true

/-- The tree of a statement with a leading `WITH`. -/
def Ast.hasWith : Ast V → Bool
  | .query _ => true
  | .insert args _ => "with_" ∈ args
  | .delete args _ => "with_" ∈ args
  | .update args _ => "with_" ∈ args
  | .merge args _ => "with_" ∈ args
  | .other _ => true
  | _ => false

/-- The loop over unsupported arguments at the head of a builder. -/
def refuseArgs (verb : String) (refused args : List String) : Except DbError Unit :=
  match refused.find? (· ∈ args) with
  | some a => .error (.notImplemented (verb ++ " with " ++ a.toUpper ++ " is not supported yet"))
  | none => .ok ()

/-- `_build_insert`. -/
def buildInsert (args : List String) (node : Except DbError (InsertNode V ⊕ InsertSelectNode V)) :
    Except DbError (Stmt V) := do
  refuseArgs "INSERT" ["conflict", "returning", "where", "partition", "ignore", "overwrite",
    "alternative", "source"] args
  match ← node with
  | .inl n => return .insert n
  | .inr n => return .insertSelect n

/-- `_build_delete`. -/
def buildDelete (args : List String) (node : Except DbError (DeleteNode V)) :
    Except DbError (Stmt V) := do
  refuseArgs "DELETE" ["using", "cluster", "returning", "order", "limit", "tables"] args
  return .delete (← node)

/-- `_build_update`. -/
def buildUpdate (args : List String) (node : Except DbError (UpdateNode V)) :
    Except DbError (Stmt V) := do
  refuseArgs "UPDATE" ["from_", "returning", "order", "limit", "with_", "options"] args
  return .update (← node)

/-- `_build_merge`. -/
def buildMerge (args : List String) (node : Except DbError (MergeNode V)) :
    Except DbError (Stmt V) := do
  refuseArgs "MERGE" ["returning", "using_cond", "with_"] args
  return .merge (← node)

/-- What `parse` makes of one tree. -/
def Ast.lower : Ast V → Except DbError (Stmt V)
  | .query plan => do return .select (← plan)
  | .insert args node => buildInsert args node
  | .delete args node => buildDelete args node
  | .update args node => buildUpdate args node
  | .merge args node => buildMerge args node
  | .transaction => .ok .begin
  | .commit chain =>
    if chain then .error (.notImplemented "COMMIT AND CHAIN is not supported") else .ok .commit
  | .rollback savepoint =>
    if savepoint then .error (.notImplemented "ROLLBACK TO SAVEPOINT is not supported")
    else .ok .rollback
  | .other name => .error (.parse
      ("only SELECT/INSERT/UPDATE/DELETE/BEGIN/COMMIT/ROLLBACK is supported (got " ++ name ++ ")"))

/-- `parse` on the trees of a text. -/
def parse (trees : List (Ast V)) : Except DbError (Stmt V) :=
  match trees with
  | [a] => a.lower
  | l => .error (.parse ("expected exactly one statement, got " ++ toString l.length))

/-- What reads a text: the SQL parser and the two patterns of the snapshot shorthand. -/
structure SqlText (V : Type) where
  sqlglot : String → Except DbError (List (Ast V))
  snapshotRe : List Char → Option String
  restoreRe : List Char → Option String
  leadingWith : ∀ text a, headWord text = "WITH" → sqlglot text = .ok [a] → a.hasWith = true
  leadingRead : ∀ text a, headWord text ∈ ["SELECT", "EXPLAIN", "VALUES"] →
    sqlglot text = .ok [a] → a.isWrite = false

/-- `s[:7].upper() in ("CREATE ", "RESTORE")`. -/
def shorthand (text : String) : Bool :=
  String.ofList (((lstrip text).take 7).map upperChar) ∈ ["CREATE ", "RESTORE"]

/-- The statement after the shorthand: what the SQL parser and `parse` return. -/
def SqlText.parsed (P : SqlText V) (text : String) : Stmt V :=
  match P.sqlglot text with
  | .error e => .rejected e
  | .ok trees =>
    match parse trees with
    | .error e => .rejected e
    | .ok st => st

/-- The statement `_sql_body` runs for a text. -/
def SqlText.statement (P : SqlText V) (text : String) : Stmt V :=
  if shorthand text then
    match P.snapshotRe (lstrip text), P.restoreRe (lstrip text) with
    | some name, _ => .createSnapshot name
    | none, some name => .restoreToSnapshot name
    | none, none => P.parsed text
  else P.parsed text

variable [DecidableEq V]

/-- `_sql_body`. -/
def SqlText.sqlBody (P : SqlText V) (H : Host V) (text : String) : Op V (Result V) :=
  Engine.sql H (P.statement text)

/-! ## 3. The two decisions compared -/

/-- A statement changed the delta, the log or another file, the commit counter, the snapshots or the
current transaction. -/
def Changes (s s' : Session V) : Prop :=
  ¬ (s'.eng.delta = s.eng.delta ∧ s'.eng.disk = s.eng.disk ∧ s'.eng.commitTs = s.eng.commitTs ∧
    s'.eng.snapshots = s.eng.snapshots ∧ s'.txn = s.txn)

omit [DecidableEq V] in
theorem not_changes_of_quiet {s s' : Session V} (h : Engine.Quiet s s') : ¬ Changes s s' := fun hc =>
  hc ⟨h.delta, h.disk, h.commitTs, h.snapshots, h.txn⟩

/-- The tree of an INSERT or a DELETE, whose builders do not look at `with_`. -/
def Ast.ignoresWith : Ast V → Bool
  | .insert _ _ => true
  | .delete _ _ => true
  | _ => false

/-- An INSERT or a DELETE behind a leading `WITH`. -/
def SqlText.Masked (P : SqlText V) (text : String) : Prop :=
  headWord text = "WITH" ∧ ∃ a, P.sqlglot text = .ok [a] ∧ a.ignoresWith = true

theorem first_of_ofList {c : Char} {cs : List Char} {w : String} (h : String.ofList (c :: cs) = w) :
    w.toList.head? = some c := by
  rw [← h, String.toList_ofList]
  rfl

theorem head_of_readHeads {text : String} (h : headWord text ∈ readHeads) :
    ∃ c cs, lstrip text = c :: cs ∧ upperChar c ∈ ['S', 'W', 'E', 'V'] := by
  unfold headWord at h
  cases hl : lstrip text with
  | nil =>
    rw [hl] at h
    exact absurd h (by decide)
  | cons c cs =>
    rw [hl, List.takeWhile_cons] at h
    split at h
    · refine ⟨c, cs, rfl, ?_⟩
      simp only [List.map_cons, readHeads, List.mem_cons, List.not_mem_nil, or_false] at h
      rcases h with h | h | h | h <;>
        (have hc := first_of_ofList h; simp only [String.reduceToList, List.head?_cons] at hc)
      all_goals
        rw [← Option.some.inj hc]
        decide
    · exact absurd h (by decide)

/-- A text that takes the read side is not the shorthand of a snapshot. -/
theorem shorthand_of_readHeads {text : String} (h : headWord text ∈ readHeads) :
    shorthand text = false := by
  obtain ⟨c, cs, hl, hc⟩ := head_of_readHeads h
  unfold shorthand
  rw [hl, decide_eq_false_iff_not]
  simp only [List.take_succ_cons, List.map_cons, List.mem_cons, List.not_mem_nil, or_false]
  rintro (he | he)
  all_goals
    have hx := first_of_ofList he
    simp only [String.reduceToList, List.head?_cons] at hx
    rw [← Option.some.inj hx] at hc
    exact absurd hc (by decide)

omit [DecidableEq V] in
theorem refuseArgs_error {verb a : String} {refused args : List String} (hr : a ∈ refused)
    (ha : a ∈ args) : ∃ e, refuseArgs verb refused args = .error e := by
  unfold refuseArgs
  cases hf : refused.find? (· ∈ args) with
  | some b => exact ⟨_, rfl⟩
  | none =>
    have := List.find?_eq_none.mp hf a hr
    simp [ha] at this

omit [DecidableEq V] in
/-- A tree that does not write, or that has a `WITH` its builder looks at, is lowered to a query or
refused. -/
theorem lower_reads {a : Ast V}
    (h : a.isWrite = false ∨ a.hasWith = true ∧ a.ignoresWith = false) :
    (∃ q, a.lower = .ok (.select q)) ∨ ∃ e, a.lower = .error e := by
  cases a with
  | query plan =>
    cases plan with
    | error e => exact .inr ⟨e, rfl⟩
    | ok q => exact .inl ⟨q, rfl⟩
  | other name => exact .inr ⟨_, rfl⟩
  | update args node =>
    rcases h with h | ⟨h, -⟩
    · cases h
    · have hrefused : ∃ e, refuseArgs "UPDATE"
          ["from_", "returning", "order", "limit", "with_", "options"] args = .error e :=
        refuseArgs_error (a := "with_") (by decide) (of_decide_eq_true h)
      obtain ⟨e, he⟩ := hrefused
      exact .inr ⟨e, by rw [Ast.lower, buildUpdate, he]; rfl⟩
  | merge args node =>
    rcases h with h | ⟨h, -⟩
    · cases h
    · have hrefused : ∃ e, refuseArgs "MERGE" ["returning", "using_cond", "with_"] args =
          .error e := refuseArgs_error (a := "with_") (by decide) (of_decide_eq_true h)
      obtain ⟨e, he⟩ := hrefused
      exact .inr ⟨e, by rw [Ast.lower, buildMerge, he]; rfl⟩
  | insert args node => rcases h with h | ⟨-, h⟩ <;> cases h
  | delete args node => rcases h with h | ⟨-, h⟩ <;> cases h
  | transaction => rcases h with h | ⟨h, -⟩ <;> cases h
  | commit chain => rcases h with h | ⟨h, -⟩ <;> cases h
  | rollback savepoint => rcases h with h | ⟨h, -⟩ <;> cases h

omit [DecidableEq V] in
/-- What runs under the read side and is not masked is a query, or raises before it runs. -/
theorem statement_of_readHeads {P : SqlText V} {text : String} (h : headWord text ∈ readHeads)
    (hm : ¬ P.Masked text) :
    (∃ q, P.statement text = .select q) ∨ ∃ e, P.statement text = .rejected e := by
  rw [SqlText.statement, shorthand_of_readHeads h, if_neg (by decide)]
  unfold SqlText.parsed
  cases ht : P.sqlglot text with
  | error e => exact .inr ⟨e, rfl⟩
  | ok trees =>
    match trees, ht with
    | [], _ => exact .inr ⟨_, rfl⟩
    | _ :: _ :: _, _ => exact .inr ⟨_, rfl⟩
    | [a], ht =>
      have ha : a.isWrite = false ∨ a.hasWith = true ∧ a.ignoresWith = false := by
        by_cases hw : headWord text = "WITH"
        · refine .inr ⟨P.leadingWith text a hw ht, ?_⟩
          rw [Bool.eq_false_iff]
          exact fun hi => hm ⟨hw, a, ht, hi⟩
        · refine .inl (P.leadingRead text a ?_ ht)
          simp only [readHeads, List.mem_cons, List.not_mem_nil, or_false] at h ⊢
          rcases h with h | h | h | h
          · exact .inl h
          · exact absurd h hw
          · exact .inr (.inl h)
          · exact .inr (.inr h)
      rcases lower_reads ha with ⟨q, hq⟩ | ⟨e, he⟩
      · exact .inl ⟨q, by simp only [parse, hq]⟩
      · exact .inr ⟨e, by simp only [parse, he]⟩

/-- **Where a statement runs under the write side.**  A text that changes the engine runs under the
write side exactly when it is no INSERT or DELETE behind a leading `WITH`, whatever the state it
runs in. -/
theorem changes_locked (P : SqlText V) (H : Host V) (text : String) (s : Session V) :
    (Changes s (P.sqlBody H text s).2 → lockSide text = .write) ↔
      (P.Masked text → ¬ Changes s (P.sqlBody H text s).2) := by
  constructor
  · rintro h ⟨hw, -⟩ hc
    have hread : lockSide text = .read := by
      rw [lockSide, hw]
      decide
    rw [h hc] at hread
    cases hread
  · intro h hc
    by_contra hside
    have hread : headWord text ∈ readHeads := by
      by_contra hn
      exact hside (if_neg hn)
    have hm : ¬ P.Masked text := fun hm => h hm hc
    refine not_changes_of_quiet ?_ hc
    rcases statement_of_readHeads hread hm with ⟨q, hq⟩ | ⟨e, he⟩
    · rw [SqlText.sqlBody, hq]
      exact Proc.Keeps.bind Engine.Quiet.trans (Engine.keeps_exec q)
        (fun _ => Proc.Keeps.pure Engine.Quiet.refl _) s
    · rw [SqlText.sqlBody, he]
      exact Engine.Quiet.refl s

/-- An INSERT behind a WITH it does not use. -/
def withInsert : String := "WITH q AS (SELECT 1) INSERT INTO t VALUES (5)"

/-- That text is an INSERT with the argument `with_`; nothing else parses. -/
def withInsertText : SqlText Nat where
  sqlglot text :=
    if text = withInsert then .ok [.insert ["with_"] (.ok (.inl ⟨"t", none, [[some 5]]⟩))]
    else .error (.parse "unexpected token")
  snapshotRe _ := none
  restoreRe _ := none
  leadingWith text a _ h := by
    split at h
    · cases h
      rfl
    · cases h
  leadingRead text a hr h := by
    split at h
    · rename_i ht
      rw [ht] at hr
      exact absurd hr (by decide)
    · cases h

set_option maxRecDepth 10000 in
/-- **An INSERT behind a WITH commits under the read side.** -/
theorem with_insert_under_read : lockSide withInsert = .read ∧
    Changes ((World.init natHost (some "d") oneTable).session 0 {})
      (withInsertText.sqlBody natHost withInsert
        ((World.init natHost (some "d") oneTable).session 0 {})).2 := by
  refine ⟨by decide, fun h => ?_⟩
  have hts : (withInsertText.sqlBody natHost withInsert
      ((World.init natHost (some "d") oneTable).session 0 {})).2.eng.commitTs ≠
        ((World.init natHost (some "d") oneTable).session 0 {}).eng.commitTs := by
    with_unfolding_all decide
  exact hts h.2.2.1

end RyuDB
