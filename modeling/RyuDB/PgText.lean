/-
# The texts of a Postgres connection

`PGConn` decides what to do with a statement by its text, before the engine sees it: the first
keyword tells a transaction statement, a cursor statement and a row-returning statement apart, a
simple query is split at its semicolons, and the placeholders of a portal are filled in.  This file
holds these readings, and the arithmetic of the window a FETCH or MOVE selects.

What is outside the repository is a parameter.  `Chars` is what Python knows about characters,
`Dialect` the Postgres dialect of the SQL parser: parse one statement, put literals in the place of
its parameters, print it.  One fact about the dialect is relied on: a statement that begins with
ROLLBACK is still one when it is printed.
-/
import RyuDB.SqlText

namespace RyuDB

namespace Pg

/-! ## 1. What a handler can raise -/

/-- An exception as `loop` tells them apart. -/
inductive Failure where
  | pg (sqlstate message : String)
  | db (e : DbError)
  | python (type message : String)
  | cancelled
  deriving DecidableEq, Repr

/-- `type(exc).__name__` and `str(exc)` of an exception of the engine. -/
def described : DbError → String × String
  | .runtime m => ("RuntimeError", m)
  | .parse m => ("ParseError", m)
  | .key m => ("KeyError", pyRepr m)
  | .value m => ("ValueError", m)
  | .notImplemented m => ("NotImplementedError", m)
  | .fileNotFound m => ("FileNotFoundError", m)
  | .os m => ("OSError", m)
  | .structError m => ("error", m)
  | .protocol m => ("ProtocolError", m)
  | .cancelledByUser => ("CancelledByUser", "")

/-- `errors.classify` and `_sqlstate`: the SQLSTATE and the message of an error response. -/
def Failure.response : Failure → String × String
  | .pg sqlstate message => (sqlstate, message)
  | .db .cancelledByUser => ("57014", "canceling statement due to user request")
  | .cancelled => ("57014", "canceling statement due to user request")
  | .db (.parse m) => ("42601", m)
  | .db e => ("XX000", (described e).1 ++ ": " ++ (described e).2)
  | .python type message => ("XX000", type ++ ": " ++ message)

/-! ## 2. Words -/

/-- `str.isalpha` and the decimal digits of `int`. -/
structure Chars where
  alpha : Char → Bool
  digit : Char → Option Nat

/-- The text after the first `*/`. -/
def afterClose : List Char → Option (List Char)
  | '*' :: '/' :: cs => some cs
  | _ :: cs => afterClose cs
  | [] => none

/-- The text without leading blanks and without one leading `/*...*/`. -/
def skipComment (sql : String) : List Char :=
  let s := lstrip sql
  if s.take 2 = ['/', '*'] then
    match afterClose s with
    | some rest => rest.dropWhile isSpace
    | none => s
  else s

/-- `_first_keyword`.  The words the connection asks for are ASCII, so the upper case of a character
matters only where it is one ASCII letter. -/
def firstKeyword (C : Chars) (sql : String) : String :=
  .ofList (((skipComment sql).takeWhile fun c => C.alpha c || c = '_').map upperChar)

/-- `not sql.strip()`. -/
def blank (sql : String) : Bool := sql.toList.all isSpace

/-- `s.strip()`. -/
def strip (cs : List Char) : List Char :=
  ((cs.dropWhile isSpace).reverse.dropWhile isSpace).reverse

/-- `s.split()`. -/
def words (cs : List Char) : List String :=
  ((cs.splitBy fun a b => isSpace a == isSpace b).filter fun w => !w.all isSpace).map String.ofList

/-- `s.upper()`, for a comparison with an ASCII word. -/
def upper (s : String) : String := .ofList (s.toList.map upperChar)

/-- The digits of `int(s)`, with single underscores between them; `seen` says that the last
character was a digit. -/
def digitsLoop (C : Chars) : List Char → Nat → Bool → Option Nat
  | [], n, seen => if seen then some n else none
  | c :: cs, n, seen =>
    if c = '_' then if seen then digitsLoop C cs n false else none
    else
      match C.digit c with
      | some d => digitsLoop C cs (10 * n + d) true
      | none => none

/-- `int(s)`. -/
def pyInt (C : Chars) (s : String) : Option Int :=
  match strip s.toList with
  | '-' :: cs => (digitsLoop C cs 0 false).map fun n => -(n : Int)
  | '+' :: cs => (digitsLoop C cs 0 false).map fun n => (n : Int)
  | cs => (digitsLoop C cs 0 false).map fun n => (n : Int)

/-! ## 3. Statements of a simple query -/

/-- The statement collected so far, if it is not blank. -/
def endStatement (cur : List Char) : List String :=
  if strip cur = [] then [] else [.ofList (strip cur)]

/-- The loop of `_split_statements`: the rest of the text, the open quote, the depth of the
parentheses and the current statement. -/
def splitLoop : List Char → Option Char → Int → List Char → List String
  | [], _, _, cur => endStatement cur
  | ch :: cs, some q, depth, cur =>
    if ch = q then splitLoop cs none depth (cur ++ [ch])
    else if ch = Char.ofNat 92 ∧ q = Char.ofNat 39 then
      -- a backslash in a single-quoted string takes the next character with it
      match cs with
      | [] => endStatement (cur ++ [ch])
      | next :: cs => splitLoop cs (some q) depth (cur ++ [ch, next])
    else splitLoop cs (some q) depth (cur ++ [ch])
  | ch :: cs, none, depth, cur =>
    if ch = Char.ofNat 39 ∨ ch = Char.ofNat 34 then splitLoop cs (some ch) depth (cur ++ [ch])
    else if ch = '(' then splitLoop cs none (depth + 1) (cur ++ [ch])
    else if ch = ')' then splitLoop cs none (depth - 1) (cur ++ [ch])
    else if ch = ';' ∧ depth = 0 then endStatement cur ++ splitLoop cs none depth []
    else splitLoop cs none depth (cur ++ [ch])

/-- `_split_statements`. -/
def splitStatements (sql : String) : List String := splitLoop sql.toList none 0 []

/-! ## 4. Parameters -/

/-- A literal node of the SQL parser. -/
inductive Literal where
  | null
  | number (text : String)
  | boolean (b : Bool)
  | string (text : String)
  deriving DecidableEq, Repr

/-- The Postgres dialect of the SQL parser.  `fill` puts a literal in the place of every parameter,
by the parameter's name; `reprFloat` is `repr(float(s))`. -/
structure Dialect (Tree : Type) (C : Chars) where
  parseOne : String → Except Failure Tree
  fill : Tree → (String → Literal) → Tree
  sql : Tree → String
  reprFloat : String → Option String
  /-- A statement that begins with ROLLBACK is printed as one. -/
  rollback : ∀ text tree f, firstKeyword C text = "ROLLBACK" → parseOne text = .ok tree →
    firstKeyword C (sql (fill tree f)) = "ROLLBACK"

section Params

variable {Tree : Type} {C : Chars} (D : Dialect Tree C)

/-- `_param_literal_node`, for the decoded text of a parameter. -/
def paramLiteralNode (value : Option String) (oid : Int) : Literal :=
  match value with
  | none => .null
  | some s =>
    if oid ∈ [21, 23, 20] then
      match pyInt C s with
      | some n => .number (toString n)
      | none => .null
    else if oid ∈ [700, 701] then
      match D.reprFloat s with
      | some t => .number t
      | none => .null
    else if oid = 16 then .boolean (s ∈ ["t", "true", "TRUE", "1"])
    else .string s

/-- `by_index.get(idx)`: the parameter whose one-based position reads `idx`. -/
def byIndex (params : List (Option String)) (idx : String) : Option String :=
  match (List.range params.length).find? fun i => toString (i + 1) = idx with
  | some i => (params.getD i none)
  | none => none

/-- `_substitute_params`.  The OID is taken at the position the loop over the parameters ended at,
whichever placeholder is replaced. -/
def substituteParams (sql : String) (params : List (Option String)) (oids : List Int) :
    Except Failure String :=
  if params = [] then .ok sql
  else do
    let tree ← D.parseOne sql
    let oid := oids.getD (params.length - 1) 0
    return D.sql (D.fill tree fun idx => paramLiteralNode D (byIndex params idx) oid)

/-- A ROLLBACK stays one when its parameters are filled in. -/
theorem substituteParams_rollback {sql full : String} {params : List (Option String)}
    {oids : List Int} (hk : firstKeyword C sql = "ROLLBACK")
    (h : substituteParams D sql params oids = .ok full) : firstKeyword C full = "ROLLBACK" := by
  unfold substituteParams at h
  split at h
  · cases h
    exact hk
  · cases ht : D.parseOne sql with
    | error e =>
      rw [ht] at h
      cases h
    | ok tree =>
      rw [ht] at h
      cases h
      exact D.rollback sql tree _ hk ht

end Params

/-! ## 5. Cursors -/

/-- A FETCH or MOVE direction with its count. -/
inductive Direction where
  | next
  | prior
  | first
  | last
  | forward (count : Option Int)
  | backward (count : Option Int)
  | forwardAll
  | backwardAll
  | absolute (n : Int)
  | relative (n : Int)
  deriving DecidableEq, Repr

/-- `_to_int`. -/
def toInt (C : Chars) (tok what : String) : Except Failure Int :=
  match pyInt C tok with
  | some n => .ok n
  | none => .error (.pg "42601"
      ("expected an integer count after " ++ what ++ ", got " ++ pyRepr tok))

/-- `re.sub(r"^\s*(FETCH|MOVE)\s+", "", sql)`. -/
def dropVerb (sql : String) : List Char :=
  let s := lstrip sql
  let verb := s.takeWhile fun c => !isSpace c
  let rest := s.drop verb.length
  if upper (.ofList verb) ∈ ["FETCH", "MOVE"] ∧ rest ≠ [] then rest.dropWhile isSpace
  else sql.toList

/-- The direction that the words between the verb and the cursor name spell. -/
def parseDirection (C : Chars) : List String → Except Failure Direction
  | [] => .ok .next
  | t :: ts =>
    let t0 := upper t
    let single (d : Direction) : Except Failure Direction :=
      if ts = [] then .ok d else .error (.pg "42601" ("bad " ++ t0 ++ " direction"))
    let counted (mk : Option Int → Direction) (all : Direction) : Except Failure Direction :=
      match ts with
      | [] => .ok (mk none)
      | n :: _ => if upper n = "ALL" then .ok all else do return mk (some (← toInt C n t0))
    let numbered (mk : Int → Direction) : Except Failure Direction :=
      match ts with
      | [n] => do return mk (← toInt C n t0)
      | _ => .error (.pg "42601" ("expected " ++ t0 ++ " <n>"))
    if t0 = "NEXT" then single .next
    else if t0 = "PRIOR" then single .prior
    else if t0 = "FIRST" then single .first
    else if t0 = "LAST" then single .last
    else if t0 = "ALL" then single .forwardAll
    else if t0 = "ABSOLUTE" then numbered .absolute
    else if t0 = "RELATIVE" then numbered .relative
    else if t0 = "FORWARD" then counted .forward .forwardAll
    else if t0 = "BACKWARD" then counted .backward .backwardAll
    else do return .forward (some (← toInt C t "FETCH count"))

/-- `_parse_fetch`: the direction and the cursor's name. -/
def parseFetch (C : Chars) (sql : String) : Except Failure (Direction × String) :=
  match (words (dropVerb sql)).reverse with
  | [] => .error (.pg "42601" "expected a cursor name")
  | name :: before =>
    let before := match before with
      | t :: ts => if upper t ∈ ["FROM", "IN"] then ts else t :: ts
      | [] => []
    do return (← parseDirection C before.reverse, name)

/-- The slice a FETCH selects, the position it leaves and whether the rows come last first. -/
structure Window where
  start : Int
  length : Int
  newOffset : Int
  reverse : Bool
  deriving DecidableEq, Repr

/-- `_cursor_window`. -/
def cursorWindow (d : Direction) (offset total : Int) (maxrows : Nat) : Window :=
  let cap (n : Int) : Int := if maxrows = 0 then n else min n maxrows
  let forth (n : Int) : Window :=
    let n := min (cap n) (total - offset)
    ⟨offset, n, offset + n, false⟩
  let back (n : Int) : Window :=
    let n := min (cap n) offset
    ⟨offset - n, n, offset - n, true⟩
  match d with
  | .next => forth 1
  | .forward count => forth (count.getD 1)
  | .forwardAll =>
    let stop := if maxrows = 0 then total else min total (offset + maxrows)
    ⟨offset, stop - offset, stop, false⟩
  | .prior => back 1
  | .backward count => back (count.getD 1)
  | .backwardAll =>
    let start := if maxrows = 0 then offset else max 0 (offset - maxrows)
    ⟨start, offset - start, start, true⟩
  | .first =>
    let length := min (if total > 0 then 1 else 0) total
    let length := if maxrows = 0 then length else min length (cap 1)
    ⟨0, length, length, false⟩
  | .last =>
    let length := if total > 0 then 1 else 0
    let length := if maxrows = 0 then length else min length (cap 1)
    ⟨max 0 (total - length), length, total, false⟩
  | .absolute n =>
    let pos := if n = 0 then 0 else if n > 0 then n else total + n + 1
    if pos < 1 ∨ pos > total then ⟨offset, 0, max 0 (min total pos), false⟩
    else ⟨pos - 1, 1, pos, false⟩
  | .relative n =>
    let pos := offset + 1 + n
    if pos < 1 ∨ pos > total then ⟨offset, 0, max 0 (min total (pos - 1)), false⟩
    else ⟨pos - 1, 1, pos, false⟩

end Pg

end RyuDB
