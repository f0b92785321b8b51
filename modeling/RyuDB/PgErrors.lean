/-
# Errors in the extended query protocol

The protocol asks three things of a server.  After an extended-query message fails, the messages up
to the next Sync are discarded; ReadyForQuery is sent once for every Sync and every simple query and
for nothing else; and an Execute runs what the last successful Bind to its portal name since the last
error put there.  (A simple query that fails is answered by its own ReadyForQuery and discards
nothing.)

`PGConn.loop` has no discarding: every message is handled, and an `except` clause answers with
ReadyForQuery at once, whatever the message was.  So the three hold in a run in which no
extended-query message raises, only Flush stands between a failure and the next Sync, and no Execute
names a portal that was bound before the last error.  `Talk` is the connection together with what the
protocol remembers.
-/
import RyuDB.PgFrame
import RyuDB.PgEngine
import RyuDB.Lib.Run

namespace RyuDB

namespace Pg

variable {σ V Tree : Type}

/-! ## 1. What the protocol asks -/

/-- The connection, whether the protocol discards messages, and the binds since the last error. -/
structure Talk (σ V : Type) where
  conn : Conn σ V
  skipping : Bool := false
  bound : Dict String Portal := ∅

/-- The last message was answered by an error. -/
def Conn.erred (c : Conn σ V) : Bool := c.log.any Event.isError

/-- The messages that are answered by ReadyForQuery. -/
def Message.endsCycle : Message → Bool
  | .query _ => true
  | .sync => true
  | _ => false

variable (B : Backend σ V Tree)

/-- The binds the protocol remembers after a message that was not answered by an error. -/
def Talk.boundAfter (t : Talk σ V) : Message → Dict String Portal
  | .bind portal stmtName _ params _ => t.bound.set portal (boundPortal t.conn stmtName params)
  | .closePortal name => t.bound.erase name
  | _ => t.bound

/-- One message. -/
def Talk.next (t : Talk σ V) (m : Message) : Talk σ V :=
  let c := step B t.conn m
  { conn := c
    skipping := if m = .sync then false else t.skipping || (c.erred && !m.endsCycle)
    bound := if c.erred then ∅ else t.boundAfter m }

/-- A message that is discarded has no effect and no answer. -/
def Discarded (c : Conn σ V) (m : Message) : Prop := step B c m = { c with log := [] }

/-- The number of ReadyForQuery among the answers to the last message. -/
def Conn.readies (c : Conn σ V) : Nat := c.log.countP Event.isReady

/-- What the protocol asks of one message. -/
structure Follows (t : Talk σ V) (m : Message) : Prop where
  discards : t.skipping = true → m ≠ .sync → Discarded B t.conn m
  readies : t.skipping = false ∨ m = .sync →
    (step B t.conn m).readies = if m.endsCycle then 1 else 0
  executes : ∀ name maxrows, m = .execute name maxrows → ∀ text ok,
    Event.ran text ok ∈ (step B t.conn m).log →
      ∃ p, t.bound.get? name = some p ∧ ∃ full, p.full B = .ok full ∧ texts B full text

/-! ## 2. Where the code does it -/

/-- The connection as it is when an Execute passes the gate. -/
def Conn.popped (c : Conn σ V) (name : String) : Conn σ V :=
  { c with portalCache := c.portalCache.erase name, log := [] }

/-- The statement of a portal raises: its placeholders cannot be filled in, it is a cursor statement
that raises, or there is nothing cached for it and the engine raises. -/
def Stumbles (c : Conn σ V) (name : String) (p : Portal) (maxrows : Nat) : Prop :=
  (∃ e, p.full B = .error e) ∨
  ∃ full, p.full B = .ok full ∧
    if firstKeyword B.chars full ∈ cursorHeads then
      ∃ e, (cursorStmt B full maxrows (c.popped name)).1 = .error e
    else c.portalCache.get? name = none ∧ blank full = false ∧
      ∃ e, (B.run c.backend full).1 = .error e

/-- An extended-query message whose handler raises, or that `loop` does not know. -/
def Raises (c : Conn σ V) : Message → Prop
  | .bind _ _ fmts _ rfmts => 1 ∈ rfmts ∨ 1 ∈ fmts
  | .describeStatement name => ((c.oids.get? name).getD []).any (· < 0) = true
  | .describePortal name =>
    ∃ e, ((c.portals.get? name).getD ⟨"", [], []⟩).full B = .error e
  | .execute name maxrows =>
    ∃ p, c.portals.get? name = some p ∧
      ¬ (c.failed = true ∧ firstKeyword B.chars p.sql ≠ "ROLLBACK") ∧ Stumbles B c name p maxrows
  | .unsupported _ => True
  | .malformed _ => True
  | _ => False

/-- A message at which the code follows the protocol. -/
structure Smooth (t : Talk σ V) (m : Message) : Prop where
  waits : t.skipping = true → m = .sync ∨ m = .flush
  returns : ¬ Raises B t.conn m
  fresh : ∀ name maxrows, m = .execute name maxrows →
    (t.bound.get? name).isSome = true ∨ t.conn.portals.get? name = none

/-! ## 3. One message -/

section Step

variable {B}

/-- No ReadyForQuery is added to the log. -/
def Unready (c c' : Conn σ V) : Prop :=
  ∃ es, c'.log = c.log ++ es ∧ ∀ e ∈ es, Event.isReady e = false

theorem Unready.refl (c : Conn σ V) : Unready c c := ⟨[], by rw [List.append_nil], by simp⟩

theorem Unready.trans (a b c : Conn σ V) (h₁ : Unready a b) (h₂ : Unready b c) : Unready a c := by
  obtain ⟨es₁, hl₁, hr₁⟩ := h₁
  obtain ⟨es₂, hl₂, hr₂⟩ := h₂
  refine ⟨es₁ ++ es₂, by rw [hl₂, hl₁, List.append_assoc], fun e he => ?_⟩
  rcases List.mem_append.mp he with he | he
  · exact hr₁ e he
  · exact hr₂ e he

theorem Inner.unready {S : String → Prop} {c c' : Conn σ V} (h : Inner S c c') : Unready c c' := by
  obtain ⟨es, hl, hi⟩ := h.log
  exact ⟨es, hl, fun e he => (hi e he).not_isReady⟩

/-- Code that only adds the event `e`. -/
theorem Unready.one {c c' : Conn σ V} {e : Event} (he : e.isReady = false)
    (h : c'.log = c.log ++ [e]) : Unready c c' :=
  ⟨[e], h, fun x hx => by rw [List.mem_singleton.mp hx]; exact he⟩

theorem Unready.readies {c c' : Conn σ V} (h : Unready c c') (hc : c.log = []) :
    c'.readies = 0 := by
  obtain ⟨es, hl, hr⟩ := h
  rw [Conn.readies, hl, hc, List.nil_append, List.countP_eq_zero]
  intro e he
  rw [hr e he]
  decide

theorem keeps_unready_send {r : Reply} (h : Event.isReady (.sent r) = false) :
    Proc.Keeps Unready (send r : Act σ V Unit) := fun _ => Unready.one h rfl

theorem describeResult_unready (name : String) : ∀ r : Except Failure (Result V),
    Proc.Keeps Unready (describeResult name r : Act σ V Unit)
  | .ok (.frame f) =>
    Proc.Keeps.bind Unready.trans (keeps_unready_send rfl) fun _ =>
      fun c => ⟨[], (List.append_nil c.log).symm, by simp⟩
  | .ok (.count _) => keeps_unready_send rfl
  | .ok .none => keeps_unready_send rfl
  | .error _ => keeps_unready_send rfl

theorem describePortal_unready (name : String) :
    Proc.Keeps Unready (describePortal B name) := by
  refine Proc.Keeps.bind Unready.trans (Proc.Keeps.get Unready.refl) fun c => ?_
  refine Proc.Keeps.lift_bind Unready.refl fun full _ => ?_
  unfold describeOutput
  split
  · exact keeps_unready_send rfl
  · split
    · refine Proc.Keeps.bind Unready.trans (Proc.Keeps.attempt fun c => ?_) fun r =>
        describeResult_unready name r
      exact Unready.one rfl rfl
    · exact keeps_unready_send rfl

theorem describeStatement_unready (name : String) :
    Proc.Keeps Unready (describeStatement name : Act σ V Unit) := by
  refine Proc.Keeps.bind Unready.trans (Proc.Keeps.get Unready.refl) fun c => ?_
  dsimp only
  split
  · exact Proc.Keeps.raise Unready.refl _
  · exact Proc.Keeps.bind Unready.trans (keeps_unready_send rfl) fun _ => keeps_unready_send rfl

/-- The events of an Execute: only texts of the bound portal reach the engine. -/
theorem execute_log {c : Conn σ V} {name : String} {p : Portal} (maxrows : Nat)
    (hp : c.portals.get? name = some p) : ∃ es, (execute B name maxrows c).2.log = c.log ++ es ∧
      ∀ e ∈ es, Event.Inner (fun text => ∃ full, p.full B = .ok full ∧ texts B full text) e := by
  rw [execute_some B c maxrows hp]
  exact (keeps_gated B maxrows _ (fun full hf text ht => ⟨full, hf, ht⟩) _).log

theorem execute_unready (name : String) (maxrows : Nat) :
    Proc.Keeps Unready (execute B name maxrows) := by
  intro c
  cases hp : c.portals.get? name with
  | none =>
    rw [execute_none B c maxrows hp]
    exact Unready.one rfl rfl
  | some p =>
    obtain ⟨es, hl, hi⟩ := execute_log (B := B) maxrows hp
    exact ⟨es, hl, fun e he => (hi e he).not_isReady⟩

/-! ## 4. Handlers that return -/

theorem executePortal_ok {c : Conn σ V} {name : String} {p : Portal} {maxrows : Nat}
    (h : ¬ Stumbles B c name p maxrows) :
    ∃ c', executePortal B p maxrows (c.portalCache.get? name) (c.popped name) = (.ok (), c') := by
  unfold Stumbles at h
  simp only [not_or, not_exists, not_and] at h
  unfold executePortal
  cases hf : p.full B with
  | error e => exact absurd hf (h.1 e)
  | ok full =>
    have h := h.2 full hf
    rw [Proc.lift_bind_ok]
    by_cases hc : firstKeyword B.chars full ∈ cursorHeads
    · rw [if_pos hc] at h ⊢
      rcases hs : cursorStmt B full maxrows (c.popped name) with ⟨r, c'⟩
      rw [hs] at h
      cases r with
      | error e => exact absurd ⟨e, rfl⟩ h
      | ok u => exact ⟨c', rfl⟩
    · rw [if_neg hc] at h ⊢
      cases hg : c.portalCache.get? name with
      | some f => exact ⟨_, emitResult_apply B _ _ _ _ _⟩
      | none =>
        cases hb : blank full with
        | true => exact ⟨_, rfl⟩
        | false =>
          rcases hr : (B.run c.backend full).1 with e | r
          · exact absurd ⟨hg, hb, e, hr⟩ h
          · have he : exec B full (c.popped name) = (.ok r, (exec B full (c.popped name)).2) :=
              Prod.ext hr rfl
            exact ⟨_, (Proc.bind_of_ok he).trans (emitResult_apply B _ _ _ _ _)⟩

/-- A message other than Sync and a simple query returns where it does not raise. -/
theorem handle_ok {c : Conn σ V} {m : Message} (hm : m.endsCycle = false)
    (h : ¬ Raises B c m) : ∃ c', handle B m { c with log := [] } = (.ok (), c') := by
  cases m with
  | query sql => cases hm
  | sync => cases hm
  | parse name sql oids => exact ⟨_, rfl⟩
  | bind portal stmtName fmts params rfmts =>
    rw [Raises, not_or] at h
    rw [handle, bind, if_neg h.1, if_neg h.2]
    exact ⟨_, rfl⟩
  | describeStatement name =>
    rw [Raises] at h
    rw [handle, describeStatement, Proc.get_bind]
    dsimp only
    rw [if_neg h]
    exact ⟨_, rfl⟩
  | describePortal name =>
    rw [Raises] at h
    rw [handle, describePortal, Proc.get_bind]
    cases hf : ((c.portals.get? name).getD ⟨"", [], []⟩).full B with
    | error e => exact absurd ⟨e, hf⟩ h
    | ok full => exact describeOutput_ok B _ full name
  | execute name maxrows =>
    rw [Raises] at h
    rw [handle]
    cases hp : c.portals.get? name with
    | none => exact ⟨_, execute_none B _ maxrows hp⟩
    | some p =>
      rw [execute_some B { c with log := [] } maxrows hp]
      by_cases hg : c.failed = true ∧ firstKeyword B.chars p.sql ≠ "ROLLBACK"
      · have hgate := gate_shut B (c := c.popped name) hg
        exact ⟨_, Proc.bind_of_ok hgate⟩
      · have hgate := gate_open B (c := c.popped name) hg
        obtain ⟨c', hc'⟩ := executePortal_ok (B := B) fun hs => h ⟨p, hp, hg, hs⟩
        exact ⟨c', (Proc.bind_of_ok hgate).trans hc'⟩
  | closeStatement name => exact ⟨_, rfl⟩
  | closePortal name => exact ⟨_, rfl⟩
  | flush => exact ⟨_, rfl⟩
  | unsupported t => exact absurd trivial h
  | malformed message => exact absurd trivial h

/-- No extended-query handler says that the connection is ready. -/
theorem handle_unready {c : Conn σ V} {m : Message} (hm : m.endsCycle = false)
    (h : ∀ t, m ≠ .unsupported t) :
    Unready { c with log := [] } (handle B m { c with log := [] }).2 := by
  cases m with
  | query sql => cases hm
  | sync => cases hm
  | parse name sql oids => exact Unready.one rfl rfl
  | bind portal stmtName fmts params rfmts =>
    rw [handle, bind]
    split
    · exact Unready.refl _
    · split
      · exact Unready.refl _
      · exact Unready.one rfl rfl
  | describeStatement name => exact describeStatement_unready name _
  | describePortal name => exact describePortal_unready name _
  | execute name maxrows => exact execute_unready name maxrows _
  | closeStatement name => exact Unready.one rfl rfl
  | closePortal name => exact Unready.one rfl rfl
  | flush => exact Unready.refl _
  | unsupported t => exact absurd rfl (h t)
  | malformed message => exact Unready.refl _

/-- A simple query is answered by one ReadyForQuery, however it ends. -/
theorem query_readies (c : Conn σ V) (sql : String) : (step B c (.query sql)).readies = 1 := by
  obtain ⟨c₁, e, hi, h | h⟩ := simpleQuery_inner B { c with log := [] } sql
  · have hz : c₁.readies = 0 := hi.unready.readies rfl
    rw [step_ok B c (m := .query sql) h, ready_apply, Conn.readies, List.countP_append]
    exact congrArg (· + 1) hz
  · have hz : c₁.readies = 0 := hi.unready.readies rfl
    rw [step_error B c (m := .query sql) h, recover_apply, ready_apply, Conn.readies, List.countP_append,
      List.countP_append]
    rw [Conn.readies] at hz
    rw [hz]
    cases B.inTxn c₁.backend <;> rfl

end Step

/-! ## 5. A run -/

section Runs

variable {B}

/-- What the protocol remembers of a portal is what the connection has under its name. -/
def Talk.Sound (t : Talk σ V) : Prop :=
  ∀ name p, t.bound.get? name = some p → t.conn.portals.get? name = some p

/-- A message whose handler raised was answered by an error. -/
theorem erred_of_error {c c' : Conn σ V} {m : Message} {e : Failure}
    (h : handle B m { c with log := [] } = (.error e, c')) : (step B c m).erred = true := by
  rw [step_error B c h, recover_apply, ready_apply, Conn.erred, List.any_append, List.any_append]
  simp [Event.isError]

/-- A Bind that was not answered by an error changed the portals. -/
theorem bind_not_erred {c : Conn σ V} {portal stmtName : String} {fmts rfmts : List Nat}
    {params : List (Option String)}
    (h : (step B c (.bind portal stmtName fmts params rfmts)).erred = false) :
    ¬ (1 ∈ rfmts ∨ 1 ∈ fmts) := by
  intro hf
  have herr : ∃ e c', handle B (.bind portal stmtName fmts params rfmts) { c with log := [] } =
      (.error e, c') := by
    rw [handle, bind]
    split
    · exact ⟨_, _, rfl⟩
    · rename_i hr
      rw [if_pos (hf.resolve_left hr)]
      exact ⟨_, _, rfl⟩
  obtain ⟨e, c', hc'⟩ := herr
  rw [erred_of_error hc'] at h
  cases h

theorem Talk.Sound.next {t : Talk σ V} (h : t.Sound) (m : Message) : (t.next B m).Sound := by
  intro name p hp
  change (step B t.conn m).portals.get? name = some p
  rw [step_portals]
  change (if (step B t.conn m).erred then ∅ else t.boundAfter m).get? name = some p at hp
  cases herr : (step B t.conn m).erred with
  | true =>
    rw [herr, if_pos rfl, Dict.get?_empty] at hp
    cases hp
  | false =>
    rw [herr, if_neg (by decide)] at hp
    cases m with
    | bind portal stmtName fmts params rfmts =>
      rw [Talk.boundAfter, Dict.get?_set] at hp
      rw [portalsAfter, if_neg (bind_not_erred herr), Dict.get?_set]
      split at hp
      · rename_i hn
        rw [if_pos hn, hp]
      · rename_i hn
        rw [if_neg hn]
        exact h name p hp
    | closePortal closed =>
      rw [Talk.boundAfter, Dict.get?_erase] at hp
      rw [portalsAfter, Dict.get?_erase]
      split at hp
      · cases hp
      · rename_i hn
        rw [if_neg hn]
        exact h name p hp
    | _ => exact h name p hp

/-- The texts that an Execute hands to the engine come from the portal the protocol remembers. -/
theorem execute_follows {t : Talk σ V} (hs : t.Sound) {name : String} {maxrows : Nat}
    (h : Smooth B t (.execute name maxrows)) {text : String} {ok : Bool}
    (he : Event.ran text ok ∈ (step B t.conn (.execute name maxrows)).log) :
    ∃ p, t.bound.get? name = some p ∧ ∃ full, p.full B = .ok full ∧ texts B full text := by
  obtain ⟨c', hc'⟩ := handle_ok rfl h.returns
  rw [step_ok B t.conn hc'] at he
  rw [handle] at hc'
  rcases h.fresh name maxrows rfl with hb | hn
  · obtain ⟨p, hp⟩ := Option.isSome_iff_exists.mp hb
    have hportal : ({ t.conn with log := [] } : Conn σ V).portals.get? name = some p :=
      hs name p hp
    obtain ⟨es, hl, hi⟩ := execute_log (B := B) maxrows hportal
    rw [hc', List.nil_append] at hl
    rw [hl] at he
    exact ⟨p, hp, hi _ he⟩
  · rw [execute_none B { t.conn with log := [] } maxrows hn] at hc'
    cases hc'
    simp at he

/-- One message. -/
theorem follows_of_smooth {t : Talk σ V} (hs : t.Sound) {m : Message} (h : Smooth B t m) :
    Follows B t m where
  discards := by
    intro hskip hne
    rw [(h.waits hskip).resolve_left hne]
    rfl
  readies := by
    intro _
    cases hm : m.endsCycle with
    | false =>
      obtain ⟨c', hc'⟩ := handle_ok hm h.returns
      have hu := handle_unready hm (B := B) (c := t.conn) fun t ht => h.returns (ht ▸ trivial)
      rw [hc'] at hu
      rw [step_ok B t.conn hc']
      exact hu.readies rfl
    | true =>
      cases m with
      | query sql => exact query_readies t.conn sql
      | sync => rfl
      | _ => cases hm
  executes := by
    rintro name maxrows rfl text ok he
    exact execute_follows hs h he

/-- **Errors in the extended query protocol.**  In every run from a new connection in which no
extended-query message raises, only Flush stands between a failure and the next Sync, and no Execute
names a portal bound before the last error, every message is treated as the protocol asks. -/
theorem errors_follow_protocol (s : σ) (ms : List Message)
    (h : Run.Along (Talk.next B) (Smooth B) { conn := { backend := s } } ms) :
    Run.Along (Talk.next B) (Follows B) { conn := { backend := s } } ms :=
  Run.Along.imp (P := Talk.Sound) (fun _ m hs hm => ⟨follows_of_smooth hs hm, hs.next m⟩)
    (fun name p hp => by cases hp) h

end Runs

/-- Parse, Bind, Execute, Sync. -/
def executedRun : List Message :=
  [.parse "" "SELECT k FROM t" [], .bind "" "" [] [] [], .execute "" 0, .sync]

/-- The talk after a run on the server with two tables. -/
def talkAfter (ms : List Message) : Talk (Site Nat) Nat :=
  Run.run (Talk.next twoTableServer) { conn := { backend := twoTableSite } } ms

theorem errors_follow_protocol_executed : Run.Along (Talk.next twoTableServer)
    (Follows twoTableServer) { conn := { backend := twoTableSite } } executedRun := by
  refine errors_follow_protocol twoTableSite executedRun
    ⟨⟨by decide, id, nofun⟩,
      ⟨by decide, fun h => h.elim nofun nofun, nofun⟩,
      ⟨by decide, ?_, ?_⟩, ⟨by decide, id, nofun⟩, trivial⟩
  · -- the engine answers the query of the portal
    rintro ⟨p, hp, -, hs⟩
    have hportal : (talkAfter (executedRun.take 2)).conn.portals.get? "" =
        some ⟨"SELECT k FROM t", [], []⟩ := by decide
    cases hp.symm.trans hportal
    rcases hs with ⟨e, he⟩ | ⟨full, hf, hs⟩
    · cases he
    · cases hf
      rw [if_neg (by decide)] at hs
      obtain ⟨-, -, e, he⟩ := hs
      have hok : ((twoTableServer.run (talkAfter (executedRun.take 2)).conn.backend
          "SELECT k FROM t").1).isOk = true := by decide
      rw [show (twoTableServer.run (talkAfter (executedRun.take 2)).conn.backend
          "SELECT k FROM t").1 = .error e from he] at hok
      cases hok
  · rintro name maxrows h
    cases h
    exact .inl (by decide)

/-- A Bind that fails, after one that succeeded. -/
def failedBind : List Message :=
  [.parse "" "INSERT INTO t VALUES (5)" [], .bind "" "" [] [] [], .bind "" "" [] [] [1]]

set_option maxRecDepth 10000 in
/-- **A failure is answered at once, and what follows is not discarded.**  The Bind that fails is
answered by ReadyForQuery, and the Execute behind it runs the INSERT of the Bind before. -/
theorem error_not_discarded : ¬ Run.Along (Talk.next twoTableServer) (Follows twoTableServer)
      { conn := { backend := twoTableSite } } failedBind ∧
    ¬ Follows twoTableServer (talkAfter failedBind) (.execute "" 0) := by
  refine ⟨?_, fun h => ?_⟩
  · rintro ⟨-, -, h, -⟩
    exact absurd (h.readies (.inl (by decide))) (by decide)
  · obtain ⟨p, hp, -⟩ := h.executes "" 0 rfl "INSERT INTO t VALUES (5)" true (by with_unfolding_all decide)
    have hnone : (talkAfter failedBind).bound.get? "" = none := by decide
    rw [hnone] at hp
    cases hp

end Pg

end RyuDB
