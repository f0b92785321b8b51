/-
# A Postgres connection

The message loop of `PGConn`.  A connection holds the prepared statements, the portals, the results
that a Describe of a portal left behind for the next Execute, the cursors and the flag of an aborted
transaction; the transaction itself is in the slot that `Server.run_sql` loads and stores around
every statement.

`Backend` is what the connection stands on.  `run` is `run_sql` on the worker: the state it works on
holds the engine, the slot, and whatever other connections and cancel requests will do, so an
arbitrary function is general enough; `inTxn` reads the slot.  DECLARE and CLOSE are read by regular
expressions, which are parameters too.  Messages are taken after their payload was cut into fields;
`malformed` is a payload too short for its own counts, at which the decoding raises before anything
happens.

The log is for the theorems: what was sent, which texts reached the engine, and when the flag was
set and cleared, in order, for the message being handled.
-/
import RyuDB.PgText
import RyuDB.Lib.Dict
import RyuDB.Lib.Proc

namespace RyuDB

namespace Pg

/-! ## 1. Messages, replies and the connection -/

/-- A frontend message. -/
inductive Message where
  | query (sql : String)
  | parse (name sql : String) (oids : List Int)
  | bind (portal stmtName : String) (fmts : List Nat) (params : List (Option String))
      (rfmts : List Nat)
  | describeStatement (name : String)
  | describePortal (name : String)
  | execute (portal : String) (maxrows : Nat)
  | sync
  | closeStatement (name : String)
  | closePortal (name : String)
  | flush
  | unsupported (t : String)
  | malformed (message : String)
  deriving DecidableEq, Repr

/-- A backend message. -/
inductive Reply where
  | parseComplete
  | bindComplete
  | closeComplete
  | noData
  | emptyQueryResponse
  | parameterDescription (oids : List Int)
  | rowDescription (columns : List String)
  | dataRow (cells : List (Option String))
  | commandComplete (tag : String)
  | errorResponse (sqlstate message : String)
  | readyForQuery (status : Char)
  deriving DecidableEq, Repr

/-- What happened while a message was handled. -/
inductive Event where
  | sent (r : Reply)
  | ran (text : String) (ok : Bool)
  | aborted
  | cleared
  deriving DecidableEq, Repr

/-- `portals[name]`. -/
structure Portal where
  sql : String
  params : List (Option String)
  oids : List Int
  deriving DecidableEq, Repr

/-- What the connection stands on: the reading of texts, the two limits and `run_sql`. -/
structure Backend (σ V Tree : Type) where
  chars : Chars
  dialect : Dialect Tree chars
  declareParts : String → Except Failure (String × String)
  closeTarget : String → Except Failure (Option String)
  valToText : V → String
  maxRows : Nat
  maxCursors : Nat
  run : σ → String → Except Failure (Result V) × σ
  inTxn : σ → Bool

/-- `PGConn`. -/
structure Conn (σ V : Type) where
  backend : σ
  failed : Bool := false
  statements : Dict String String := ∅
  oids : Dict String (List Int) := ∅
  portals : Dict String Portal := ∅
  portalCache : Dict String (Frame V) := ∅
  cursors : Dict String (Frame V × Int) := ∅
  log : List Event := []

variable {σ V Tree : Type}

/-- Connection code. -/
abbrev Act (σ V : Type) := Proc Failure (Conn σ V)

/-- One more event. -/
def note (e : Event) : Act σ V Unit := Proc.modify fun c => { c with log := c.log ++ [e] }

/-- `_send`. -/
def send (r : Reply) : Act σ V Unit := note (.sent r)

/-- `self.failed = True`. -/
def abort : Act σ V Unit := Proc.modify fun c =>
  { c with failed := true, log := c.log ++ [.aborted] }

/-- `self.failed = False`. -/
def clear : Act σ V Unit := Proc.modify fun c =>
  { c with failed := false, log := c.log ++ [.cleared] }

variable (B : Backend σ V Tree)

/-- `_status`. -/
def status (c : Conn σ V) : Char :=
  if c.failed then 'E' else if B.inTxn c.backend then 'T' else 'I'

/-- ReadyForQuery. -/
def ready : Act σ V Unit := do
  let c ← Proc.get
  send (.readyForQuery (status B c))

/-! ## 2. Results -/

/-- `_exec`. -/
def exec (text : String) : Act σ V (Result V) := fun c =>
  let r := B.run c.backend text
  (r.1, { c with backend := r.2, log := c.log ++ [.ran text r.1.isOk] })

/-- `_command_tag` of a result that is no table. -/
def commandTag (sql : String) (affected : Option Nat) : String :=
  let kw := firstKeyword B.chars sql
  match affected with
  | some n =>
    if kw = "INSERT" then "INSERT 0 " ++ toString n
    else if kw ∈ ["DELETE", "UPDATE", "MERGE"] then kw ++ " " ++ toString n
    else "SELECT " ++ toString n
  | none => if kw = "" then "OK" else kw

/-- `_data_rows`. -/
def dataRows (columns : List String) (rows : List (Row V)) : List Reply :=
  rows.map fun r => .dataRow (columns.map fun c => (r c).map B.valToText)

/-- `table.slice(0, limit)`, where a limit of zero is no limit. -/
def capRows (limit : Nat) (rows : List (Row V)) : List (Row V) :=
  if limit = 0 then rows else rows.take limit

/-- `_close_all_cursors`. -/
def closeAllCursors : Act σ V Unit := Proc.modify fun c => { c with cursors := ∅ }

/-- The replies that show a result. -/
def showResult (sql : String) (result : Result V) (describe : Bool) (maxrows : Nat) :
    List Reply :=
  match result with
  | .frame f =>
    let rows := capRows B.maxRows (capRows maxrows f.rows)
    (if describe then [.rowDescription f.columns] else []) ++ dataRows B f.columns rows ++
      [.commandComplete ("SELECT " ++ toString rows.length)]
  | .count n => [.commandComplete (commandTag B sql (some n))]
  | .none => [.commandComplete (commandTag B sql none)]

/-- What `_emit_result` does after the replies: a ROLLBACK clears the flag, the end of a transaction
closes the cursors. -/
def settle (sql : String) : Act σ V Unit :=
  if firstKeyword B.chars sql = "ROLLBACK" then do
    clear
    closeAllCursors
  else if firstKeyword B.chars sql = "COMMIT" then closeAllCursors
  else pure ()

/-- `_emit_result`. -/
def emitResult (sql : String) (result : Result V) (describe : Bool) (maxrows : Nat) :
    Act σ V Unit := do
  Proc.each send (showResult B sql result describe maxrows)
  settle B sql

/-- The error response of `_gate`. -/
def gateError : Reply := .errorResponse "25P02"
  "current transaction is aborted, commands ignored until end of transaction block"

/-- `_gate`. -/
def gate (sql : String) : Act σ V Bool := do
  let c ← Proc.get
  if c.failed ∧ firstKeyword B.chars sql ≠ "ROLLBACK" then do
    send gateError
    pure false
  else pure true

/-! ## 3. Cursor statements -/

/-- The error for an unknown cursor. -/
def noCursor (name : String) : Failure := .pg "34000" ("cursor \"" ++ name ++ "\" does not exist")

/-- `_declare` after its query ran. -/
def openCursor (name : String) : Result V → Act σ V Unit
  | .frame f => do
    let c ← Proc.get
    if B.maxCursors ≤ c.cursors.keys.length then
      Proc.raise (.pg "54000" ("too many open cursors (limit " ++ toString B.maxCursors ++
        "); close one before opening another"))
    else do
      Proc.modify fun c => { c with cursors := c.cursors.set name (f, 0) }
      send (.commandComplete "DECLARE CURSOR")
  | _ => Proc.raise (.pg "42P11" "DECLARE CURSOR requires a row-returning query")

/-- `_declare`. -/
def declare (sql : String) : Act σ V Unit := do
  let parts ← Proc.lift (B.declareParts sql)
  let c ← Proc.get
  if (c.cursors.get? parts.1).isSome then
    Proc.raise (.pg "42P03" ("cursor \"" ++ parts.1 ++ "\" already exists"))
  else do
    let result ← exec B parts.2
    openCursor B parts.1 result

/-- The rows of the window; pyarrow refuses a negative offset. -/
def windowRows (f : Frame V) (w : Window) : Except Failure (List (Row V)) :=
  if w.start < 0 then .error (.python "IndexError" "Offset must be non-negative")
  else
    let page := (f.rows.drop w.start.toNat).take w.length.toNat
    .ok (if w.reverse then page.reverse else page)

/-- The page of a FETCH. -/
def sendPage (f : Frame V) (w : Window) (name : String) : Act σ V Unit := do
  let page ← Proc.lift (windowRows f w)
  Proc.each send (.rowDescription f.columns :: dataRows B f.columns page)
  Proc.modify fun c => { c with cursors := c.cursors.set name (f, w.newOffset) }
  send (.commandComplete ("FETCH " ++ toString w.length.toNat))

/-- `_fetch`. -/
def fetch (sql : String) (maxrows : Nat) (move : Bool) : Act σ V Unit := do
  let parts ← Proc.lift (parseFetch B.chars sql)
  let c ← Proc.get
  match c.cursors.get? parts.2 with
  | none => Proc.raise (noCursor parts.2)
  | some (f, offset) =>
    let w := cursorWindow parts.1 offset f.rows.length maxrows
    if move then do
      Proc.modify fun c => { c with cursors := c.cursors.set parts.2 (f, w.newOffset) }
      send (.commandComplete ("MOVE " ++ toString w.length.toNat))
    else sendPage B f w parts.2

/-- `_close_stmt`. -/
def closeStmt (sql : String) : Act σ V Unit := do
  let target ← Proc.lift (B.closeTarget sql)
  match target with
  | none => do
    closeAllCursors
    send (.commandComplete "CLOSE ALL")
  | some name => do
    let c ← Proc.get
    if (c.cursors.get? name).isSome then do
      Proc.modify fun c => { c with cursors := c.cursors.erase name }
      send (.commandComplete "CLOSE CURSOR")
    else Proc.raise (noCursor name)

/-- The first keywords `_try_cursor_stmt` takes. -/
def cursorHeads : List String := ["DECLARE", "FETCH", "MOVE", "CLOSE"]

/-- What `_try_cursor_stmt` does with one of them. -/
def cursorStmt (sql : String) (maxrows : Nat) : Act σ V Unit :=
  let kw := firstKeyword B.chars sql
  if kw = "DECLARE" then declare B sql
  else if kw = "FETCH" then fetch B sql maxrows false
  else if kw = "MOVE" then fetch B sql maxrows true
  else closeStmt B sql

/-! ## 4. The handlers -/

/-- One statement of a simple query. -/
def statement (sql : String) : Act σ V Unit := do
  let open_ ← gate B sql
  if open_ then
    if firstKeyword B.chars sql ∈ cursorHeads then cursorStmt B sql 0
    else do
      let result ← exec B sql
      emitResult B sql result true 0
  else pure ()

/-- `_simple_query`. -/
def simpleQuery (sql : String) : Act σ V Unit :=
  if blank sql then do
    send .emptyQueryResponse
    ready B
  else do
    Proc.each (statement B) (splitStatements sql)
    ready B

/-- `_parse`. -/
def parse (name sql : String) (oids : List Int) : Act σ V Unit := do
  Proc.modify fun c =>
    { c with statements := c.statements.set name sql, oids := c.oids.set name oids }
  send .parseComplete

/-- What `_bind` puts under the portal's name. -/
def boundPortal (c : Conn σ V) (stmtName : String) (params : List (Option String)) : Portal :=
  ⟨(c.statements.get? stmtName).getD "", params, (c.oids.get? stmtName).getD []⟩

/-- `_bind`. -/
def bind (portal stmtName : String) (fmts : List Nat) (params : List (Option String))
    (rfmts : List Nat) : Act σ V Unit :=
  if 1 ∈ rfmts then
    Proc.raise (.db (.runtime "binary result format is not supported (text only)"))
  else if 1 ∈ fmts then
    Proc.raise (.db (.runtime "binary parameter format is not supported (text only)"))
  else do
    Proc.modify fun c =>
      { c with portals := c.portals.set portal (boundPortal c stmtName params) }
    send .bindComplete

/-- `_describe` of a statement.  The OIDs were read as signed numbers and are written as unsigned
ones. -/
def describeStatement (name : String) : Act σ V Unit := do
  let c ← Proc.get
  let oids := (c.oids.get? name).getD []
  if oids.any (· < 0) then Proc.raise (.db (.structError "argument out of range"))
  else do
    send (.parameterDescription oids)
    send .noData

/-- The first keywords of a statement that returns rows. -/
def rowHeads : List String := ["SELECT", "WITH", "VALUES", "TABLE"]

/-- What `_describe_output` does with what the statement returned or raised. -/
def describeResult (portal : String) : Except Failure (Result V) → Act σ V Unit
  | .ok (.frame f) => do
    send (.rowDescription f.columns)
    Proc.modify fun c => { c with portalCache := c.portalCache.set portal f }
  | _ => send .noData

/-- `_describe_output`. -/
def describeOutput (sql portal : String) : Act σ V Unit :=
  if blank sql then send .noData
  else if firstKeyword B.chars sql ∈ rowHeads then do
    let result ← Proc.attempt (exec B sql)
    describeResult portal result
  else send .noData

/-- The text of a portal with its parameters filled in. -/
def Portal.full (p : Portal) : Except Failure String :=
  substituteParams B.dialect p.sql p.params p.oids

/-- `_describe` of a portal. -/
def describePortal (name : String) : Act σ V Unit := do
  let c ← Proc.get
  let full ← Proc.lift (((c.portals.get? name).getD ⟨"", [], []⟩).full B)
  describeOutput B full name

/-- `_execute` behind the gate: `cached` is what a Describe left behind. -/
def executePortal (p : Portal) (maxrows : Nat) (cached : Option (Frame V)) : Act σ V Unit := do
  let full ← Proc.lift (p.full B)
  if firstKeyword B.chars full ∈ cursorHeads then cursorStmt B full maxrows
  else
    match cached with
    | some f => emitResult B p.sql (.frame f) false maxrows
    | none =>
      if blank full then send .emptyQueryResponse
      else do
        let result ← exec B full
        emitResult B p.sql result true maxrows

/-- `_execute`. -/
def execute (portal : String) (maxrows : Nat) : Act σ V Unit := do
  let c ← Proc.get
  match c.portals.get? portal with
  | none => send .emptyQueryResponse
  | some p => do
    -- the cache is popped before the gate
    Proc.modify fun c => { c with portalCache := c.portalCache.erase portal }
    let open_ ← gate B p.sql
    if open_ then executePortal B p maxrows (c.portalCache.get? portal) else pure ()

/-- `_close` of a statement. -/
def closeStatement (name : String) : Act σ V Unit := do
  Proc.modify fun c => { c with statements := c.statements.erase name }
  send .closeComplete

/-- `_close` of a portal. -/
def closePortal (name : String) : Act σ V Unit := do
  Proc.modify fun c => { c with portals := c.portals.erase name }
  send .closeComplete

/-- The body of `loop` for one message. -/
def handle : Message → Act σ V Unit
  | .query sql => simpleQuery B sql
  | .parse name sql oids => parse name sql oids
  | .bind portal stmtName fmts params rfmts => bind portal stmtName fmts params rfmts
  | .describeStatement name => describeStatement name
  | .describePortal name => describePortal B name
  | .execute portal maxrows => execute B portal maxrows
  | .sync => ready B
  | .closeStatement name => closeStatement name
  | .closePortal name => closePortal name
  | .flush => pure ()
  | .unsupported t => do
    send (.errorResponse "08P01" ("unsupported message type " ++ t))
    ready B
  | .malformed message => Proc.raise (.db (.structError message))

/-- What the `except` clauses of `loop` do. -/
def recover (e : Failure) : Act σ V Unit := do
  send (.errorResponse e.response.1 e.response.2)
  let c ← Proc.get
  if B.inTxn c.backend then abort else pure ()
  ready B

/-- One turn of `loop`, with the log of this message only. -/
def step (c : Conn σ V) (m : Message) : Conn σ V :=
  match handle B m { c with log := [] } with
  | (.ok (), c') => c'
  | (.error e, c') => (recover B e c').2

/-- The messages of a connection, one after the other. -/
def run (c : Conn σ V) (ms : List Message) : Conn σ V := ms.foldl (step B) c

end Pg

end RyuDB
