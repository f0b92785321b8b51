/-
# What the parts of a handler leave alone

Most of a handler runs statements and sends replies.  `Plain S` is the frame of that code: the flag,
the prepared statements, the portals and the cache stay, and the log gets replies other than
ReadyForQuery and texts of `S` that reached the engine.  `Inner S` forgets the flag: it is the frame
of a whole statement, at whose end `settle` may clear the flag.

The theorems about the loop look at these two frames and at the few lines of `loop`, `_bind`,
`_describe` and `_execute` that step outside of them.

A handler is long and does one thing that matters to a theorem in one line.  With these frames the
rest of it is one step: a fact about the portals, the cursors or the flag is carried over it by the
frame, and the proof looks at the one line.  The lemmas follow the calls of the source from the bottom
up, one for each function, and every caller uses the lemma of its callee.
-/
import RyuDB.PgWire

namespace RyuDB

namespace Pg

/-! ## 1. Events -/

/-- A ReadyForQuery. -/
def Event.isReady : Event → Bool
  | .sent (.readyForQuery _) => true
  | _ => false

/-- An error response. -/
def Event.isError : Event → Bool
  | .sent (.errorResponse _ _) => true
  | _ => false

/-- Neither ReadyForQuery nor a text outside `S` that reached the engine. -/
def Event.Inner (S : String → Prop) : Event → Prop
  | .sent (.readyForQuery _) => False
  | .ran text _ => S text
  | _ => True

/-- Nor a change of the flag. -/
def Event.Plain (S : String → Prop) : Event → Prop
  | .sent (.readyForQuery _) => False
  | .sent _ => True
  | .ran text _ => S text
  | .aborted => False
  | .cleared => False

theorem Event.Plain.inner {S : String → Prop} {e : Event} (h : e.Plain S) : e.Inner S := by
  cases e with
  | sent r =>
    cases r
    case readyForQuery st => cases h
    all_goals trivial
  | ran text ok => exact h
  | aborted => trivial
  | cleared => trivial

theorem Event.Inner.not_isReady {S : String → Prop} {e : Event} (h : e.Inner S) :
    e.isReady = false := by
  cases e with
  | sent r =>
    cases r
    case readyForQuery st => cases h
    all_goals rfl
  | ran text ok => rfl
  | aborted => rfl
  | cleared => rfl

variable {σ V Tree : Type}

/-! ## 2. The two frames -/

variable {S : String → Prop}

/-- Replies and statements only. -/
structure Plain (S : String → Prop) (c c' : Conn σ V) : Prop where
  failed : c'.failed = c.failed
  statements : c'.statements = c.statements
  oids : c'.oids = c.oids
  portals : c'.portals = c.portals
  portalCache : c'.portalCache = c.portalCache
  log : ∃ es, c'.log = c.log ++ es ∧ ∀ e ∈ es, Event.Plain S e

theorem Plain.refl (c : Conn σ V) : Plain S c c where
  failed := rfl
  statements := rfl
  oids := rfl
  portals := rfl
  portalCache := rfl
  log := ⟨[], by rw [List.append_nil], by simp⟩

theorem Plain.trans (a b c : Conn σ V) (h₁ : Plain S a b) (h₂ : Plain S b c) :
    Plain S a c where
  failed := h₂.failed.trans h₁.failed
  statements := h₂.statements.trans h₁.statements
  oids := h₂.oids.trans h₁.oids
  portals := h₂.portals.trans h₁.portals
  portalCache := h₂.portalCache.trans h₁.portalCache
  log := by
    obtain ⟨es₁, hl₁, hp₁⟩ := h₁.log
    obtain ⟨es₂, hl₂, hp₂⟩ := h₂.log
    refine ⟨es₁ ++ es₂, by rw [hl₂, hl₁, List.append_assoc], ?_⟩
    intro e he
    rcases List.mem_append.mp he with he | he
    · exact hp₁ e he
    · exact hp₂ e he

/-- Anything a statement may do. -/
structure Inner (S : String → Prop) (c c' : Conn σ V) : Prop where
  statements : c'.statements = c.statements
  oids : c'.oids = c.oids
  portals : c'.portals = c.portals
  portalCache : c'.portalCache = c.portalCache
  log : ∃ es, c'.log = c.log ++ es ∧ ∀ e ∈ es, Event.Inner S e

theorem Plain.inner {c c' : Conn σ V} (h : Plain S c c') : Inner S c c' where
  statements := h.statements
  oids := h.oids
  portals := h.portals
  portalCache := h.portalCache
  log := by
    obtain ⟨es, hl, hp⟩ := h.log
    exact ⟨es, hl, fun e he => (hp e he).inner⟩

theorem Inner.refl (c : Conn σ V) : Inner S c c := (Plain.refl c).inner

theorem Inner.trans (a b c : Conn σ V) (h₁ : Inner S a b) (h₂ : Inner S b c) :
    Inner S a c where
  statements := h₂.statements.trans h₁.statements
  oids := h₂.oids.trans h₁.oids
  portals := h₂.portals.trans h₁.portals
  portalCache := h₂.portalCache.trans h₁.portalCache
  log := by
    obtain ⟨es₁, hl₁, hp₁⟩ := h₁.log
    obtain ⟨es₂, hl₂, hp₂⟩ := h₂.log
    refine ⟨es₁ ++ es₂, by rw [hl₂, hl₁, List.append_assoc], ?_⟩
    intro e he
    rcases List.mem_append.mp he with he | he
    · exact hp₁ e he
    · exact hp₂ e he

theorem Plain.keeps_inner {α : Type} {x : Act σ V α} (h : Proc.Keeps (Plain S) x) :
    Proc.Keeps (Inner S) x := fun c => (h c).inner

/-! ## 3. Code in the plain frame -/

section Keeps

variable (B : Backend σ V Tree)

theorem keeps_send {r : Reply} (h : Event.Plain S (.sent r)) :
    Proc.Keeps (Plain S) (send r : Act σ V Unit) := fun _ => by
  refine ⟨rfl, rfl, rfl, rfl, rfl, [.sent r], rfl, ?_⟩
  intro e he
  rw [List.mem_singleton.mp he]
  exact h

/-- Sending a list of replies adds exactly these to the log. -/
theorem each_send : ∀ (rs : List Reply) (c : Conn σ V),
    Proc.each send rs c = (.ok (), { c with log := c.log ++ rs.map Event.sent })
  | [], c => by
    rw [List.map_nil, List.append_nil]
    rfl
  | r :: rs, c => by
    have h := each_send rs { c with log := c.log ++ [.sent r] }
    rw [List.append_assoc] at h
    exact h

/-- The replies that show a result do not say that the connection is ready. -/
theorem showResult_plain (sql : String) (result : Result V) (describe : Bool) (maxrows : Nat) :
    ∀ r ∈ showResult B sql result describe maxrows, Event.Plain S (.sent r) := by
  intro r hr
  cases result with
  | frame f =>
    simp only [showResult, List.mem_append, List.mem_singleton] at hr
    rcases hr with (hr | hr) | hr
    · cases describe
      · simp at hr
      · rw [if_pos rfl, List.mem_singleton] at hr
        rw [hr]
        trivial
    · obtain ⟨x, -, rfl⟩ := List.mem_map.mp hr
      trivial
    · rw [hr]
      trivial
  | count n =>
    rw [List.mem_singleton.mp hr]
    trivial
  | none =>
    rw [List.mem_singleton.mp hr]
    trivial

theorem keeps_each_send {rs : List Reply} (h : ∀ r ∈ rs, Event.Plain S (.sent r)) :
    Proc.Keeps (Plain S) (Proc.each send rs : Act σ V Unit) := fun c => by
  rw [each_send]
  refine ⟨rfl, rfl, rfl, rfl, rfl, rs.map Event.sent, rfl, ?_⟩
  intro e he
  obtain ⟨r, hr, rfl⟩ := List.mem_map.mp he
  exact h r hr

theorem keeps_exec {text : String} (hS : S text) : Proc.Keeps (Plain S) (exec B text) := fun c => by
  refine ⟨rfl, rfl, rfl, rfl, rfl, [.ran text (B.run c.backend text).1.isOk], rfl, ?_⟩
  intro e he
  rw [List.mem_singleton.mp he]
  exact hS

theorem keeps_cursors (f : Conn σ V → Dict String (Frame V × Int)) :
    Proc.Keeps (Plain S) (Proc.modify fun c => { c with cursors := f c } : Act σ V Unit) :=
  fun c => ⟨rfl, rfl, rfl, rfl, rfl, [], (List.append_nil c.log).symm, by simp⟩

theorem keeps_closeAllCursors : Proc.Keeps (Plain S) (closeAllCursors : Act σ V Unit) :=
  keeps_cursors fun _ => ∅

theorem keeps_openCursor (name : String) : ∀ result : Result V,
    Proc.Keeps (Plain S) (openCursor B name result)
  | .frame f => by
    refine Proc.Keeps.bind Plain.trans (Proc.Keeps.get Plain.refl) fun c => ?_
    split
    · exact Proc.Keeps.raise Plain.refl _
    · exact Proc.Keeps.bind Plain.trans (keeps_cursors _) fun _ => keeps_send trivial
  | .count n => Proc.Keeps.raise Plain.refl _
  | .none => Proc.Keeps.raise Plain.refl _

/-- The texts a cursor statement hands to the engine: the query of a DECLARE. -/
def cursorTexts (sql text : String) : Prop := ∃ name, B.declareParts sql = .ok (name, text)

theorem keeps_declare {sql : String} (hS : ∀ text, cursorTexts B sql text → S text) :
    Proc.Keeps (Plain S) (declare B sql) := by
  refine Proc.Keeps.lift_bind Plain.refl fun parts hp => ?_
  refine Proc.Keeps.bind Plain.trans (Proc.Keeps.get Plain.refl) fun c => ?_
  split
  · exact Proc.Keeps.raise Plain.refl _
  · exact Proc.Keeps.bind Plain.trans (keeps_exec B (hS parts.2 ⟨parts.1, hp⟩)) fun r =>
      keeps_openCursor B _ r

theorem keeps_sendPage (f : Frame V) (w : Window) (name : String) :
    Proc.Keeps (Plain S) (sendPage B f w name) := by
  refine Proc.Keeps.bind Plain.trans (Proc.Keeps.lift Plain.refl _) fun page => ?_
  refine Proc.Keeps.bind Plain.trans (keeps_each_send ?_) fun _ => ?_
  · intro r hr
    rcases List.mem_cons.mp hr with rfl | hr
    · trivial
    · obtain ⟨x, -, rfl⟩ := List.mem_map.mp hr
      trivial
  · exact Proc.Keeps.bind Plain.trans (keeps_cursors _) fun _ => keeps_send trivial

theorem keeps_fetch (sql : String) (maxrows : Nat) (move : Bool) :
    Proc.Keeps (Plain S) (fetch B sql maxrows move) := by
  refine Proc.Keeps.bind Plain.trans (Proc.Keeps.lift Plain.refl _) fun parts => ?_
  refine Proc.Keeps.bind Plain.trans (Proc.Keeps.get Plain.refl) fun c => ?_
  split
  · exact Proc.Keeps.raise Plain.refl _
  · split
    · exact Proc.Keeps.bind Plain.trans (keeps_cursors _) fun _ => keeps_send trivial
    · exact keeps_sendPage B _ _ _

theorem keeps_closeStmt (sql : String) : Proc.Keeps (Plain S) (closeStmt B sql) := by
  refine Proc.Keeps.bind Plain.trans (Proc.Keeps.lift Plain.refl _) fun target => ?_
  split
  · exact Proc.Keeps.bind Plain.trans keeps_closeAllCursors fun _ => keeps_send trivial
  · refine Proc.Keeps.bind Plain.trans (Proc.Keeps.get Plain.refl) fun c => ?_
    split
    · exact Proc.Keeps.bind Plain.trans (keeps_cursors _) fun _ => keeps_send trivial
    · exact Proc.Keeps.raise Plain.refl _

theorem keeps_cursorStmt {sql : String} (maxrows : Nat)
    (hS : ∀ text, cursorTexts B sql text → S text) :
    Proc.Keeps (Plain S) (cursorStmt B sql maxrows) := by
  unfold cursorStmt
  dsimp only
  split
  · exact keeps_declare B hS
  · split
    · exact keeps_fetch B sql maxrows false
    · split
      · exact keeps_fetch B sql maxrows true
      · exact keeps_closeStmt B sql

theorem keeps_gate (sql : String) : Proc.Keeps (Plain S) (gate B sql) := by
  refine Proc.Keeps.bind Plain.trans (Proc.Keeps.get Plain.refl) fun c => ?_
  split
  · exact Proc.Keeps.bind Plain.trans (keeps_send trivial) fun _ => Proc.Keeps.pure Plain.refl _
  · exact Proc.Keeps.pure Plain.refl _

/-! ## 4. Code in the frame of a statement -/

theorem keeps_clear : Proc.Keeps (Inner S) (clear : Act σ V Unit) := fun _ =>
  ⟨rfl, rfl, rfl, rfl, [.cleared], rfl, by simp [Event.Inner]⟩

theorem keeps_settle (sql : String) : Proc.Keeps (Inner S) (settle B sql : Act σ V Unit) := by
  unfold settle
  split
  · exact Proc.Keeps.bind Inner.trans keeps_clear fun _ =>
      Plain.keeps_inner keeps_closeAllCursors
  · split
    · exact Plain.keeps_inner keeps_closeAllCursors
    · exact Proc.Keeps.pure Inner.refl _

theorem keeps_emitResult (sql : String) (result : Result V) (describe : Bool) (maxrows : Nat) :
    Proc.Keeps (Inner S) (emitResult B sql result describe maxrows) :=
  Proc.Keeps.bind Inner.trans
    (Plain.keeps_inner (keeps_each_send (showResult_plain B sql result describe maxrows)))
    fun _ => keeps_settle B sql

/-- The texts a statement hands to the engine: itself, or the query of a DECLARE. -/
def texts (sql text : String) : Prop := text = sql ∨ cursorTexts B sql text

/-- A statement stays in its frame, and hands the engine its own text or that of a DECLARE. -/
theorem keeps_statement {sql : String} (hS : ∀ text, texts B sql text → S text) :
    Proc.Keeps (Inner S) (statement B sql) := by
  refine Proc.Keeps.bind Inner.trans (Plain.keeps_inner (keeps_gate B sql)) fun go => ?_
  split
  · split
    · exact Plain.keeps_inner (keeps_cursorStmt B 0 fun text h => hS text (.inr h))
    · exact Proc.Keeps.bind Inner.trans (Plain.keeps_inner (keeps_exec B (hS sql (.inl rfl))))
        fun r => keeps_emitResult B sql r true 0
  · exact Proc.Keeps.pure Inner.refl _

theorem keeps_executePortal {p : Portal} (maxrows : Nat) (cached : Option (Frame V))
    (hS : ∀ full, p.full B = .ok full → ∀ text, texts B full text → S text) :
    Proc.Keeps (Inner S) (executePortal B p maxrows cached) := by
  refine Proc.Keeps.lift_bind Inner.refl fun full hf => ?_
  have hS := hS full hf
  split
  · exact Plain.keeps_inner (keeps_cursorStmt B maxrows fun text h => hS text (.inr h))
  · split
    · exact keeps_emitResult B p.sql _ false maxrows
    · split
      · exact Plain.keeps_inner (keeps_send trivial)
      · exact Proc.Keeps.bind Inner.trans
          (Plain.keeps_inner (keeps_exec B (hS full (.inl rfl)))) fun r =>
            keeps_emitResult B p.sql r true maxrows

/-- The gate and what is behind it in an Execute. -/
theorem keeps_gated {p : Portal} (maxrows : Nat) (cached : Option (Frame V))
    (hS : ∀ full, p.full B = .ok full → ∀ text, texts B full text → S text) :
    Proc.Keeps (Inner S) (gate B p.sql >>= fun go =>
      if go then executePortal B p maxrows cached else pure ()) := by
  refine Proc.Keeps.bind Inner.trans (Plain.keeps_inner (keeps_gate B p.sql)) fun go => ?_
  split
  · exact keeps_executePortal B maxrows cached hS
  · exact Proc.Keeps.pure Inner.refl _

end Keeps

/-! ## 5. What the parts return -/

section Apply

variable (B : Backend σ V Tree) (c : Conn σ V)

/-- The connection after `settle`. -/
def settled (sql : String) (c : Conn σ V) : Conn σ V :=
  if firstKeyword B.chars sql = "ROLLBACK" then
    { c with failed := false, cursors := ∅, log := c.log ++ [.cleared] }
  else if firstKeyword B.chars sql = "COMMIT" then { c with cursors := ∅ }
  else c

theorem settle_apply (sql : String) : settle B sql c = (.ok (), settled B sql c) := by
  unfold settle settled
  split
  · rfl
  · split
    · rfl
    · rfl

theorem emitResult_apply (sql : String) (result : Result V) (describe : Bool) (maxrows : Nat) :
    emitResult B sql result describe maxrows c = (.ok (), settled B sql
      { c with log := c.log ++ (showResult B sql result describe maxrows).map Event.sent }) := by
  unfold emitResult
  rw [Proc.bind_of_ok (each_send _ c), settle_apply]

variable {c} in
/-- In an aborted transaction nothing but a ROLLBACK comes through the gate. -/
theorem gate_shut {sql : String}
    (h : c.failed = true ∧ firstKeyword B.chars sql ≠ "ROLLBACK") :
    gate B sql c = (.ok false, { c with log := c.log ++ [.sent gateError] }) := by
  unfold gate
  rw [Proc.get_bind, if_pos h]
  rfl

variable {c} in
theorem gate_open {sql : String}
    (h : ¬ (c.failed = true ∧ firstKeyword B.chars sql ≠ "ROLLBACK")) :
    gate B sql c = (.ok true, c) := by
  unfold gate
  rw [Proc.get_bind, if_neg h]
  rfl

/-- A Describe of a portal always returns: it answers a statement that raised by NoData. -/
theorem describeResult_ok (name : String) : ∀ r : Except Failure (Result V),
    ∃ c', describeResult name r c = (.ok (), c')
  | .ok (.frame _) => ⟨_, rfl⟩
  | .ok (.count _) => ⟨_, rfl⟩
  | .ok .none => ⟨_, rfl⟩
  | .error _ => ⟨_, rfl⟩

/-- What `_describe_output` does with a statement that returns rows. -/
theorem describeOutput_rows {full : String} (name : String) (hb : blank full = false)
    (hk : firstKeyword B.chars full ∈ rowHeads) : describeOutput B full name c =
      describeResult name (B.run c.backend full).1 (exec B full c).2 := by
  unfold describeOutput
  rw [if_neg (by rw [hb]; decide), if_pos hk]
  rfl

theorem describeOutput_ok (full name : String) :
    ∃ c', describeOutput B full name c = (.ok (), c') := by
  unfold describeOutput
  split
  · exact ⟨_, rfl⟩
  · split
    · exact describeResult_ok _ name _
    · exact ⟨_, rfl⟩

end Apply

/-! ## 6. The end of a message -/

section Loop

variable (B : Backend σ V Tree) (c : Conn σ V)

theorem ready_apply :
    ready B c = (.ok (), { c with log := c.log ++ [.sent (.readyForQuery (status B c))] }) := rfl

/-- What the `except` clauses leave behind: one error response, the flag when a transaction is open,
one ReadyForQuery. -/
theorem recover_apply (e : Failure) : recover B e c =
    (.ok (), (ready B
      { c with
        failed := c.failed || B.inTxn c.backend
        log := c.log ++ (.sent (.errorResponse e.response.1 e.response.2) ::
          if B.inTxn c.backend then [.aborted] else []) }).2) := by
  unfold recover
  cases h : B.inTxn c.backend with
  | true => simp [send, note, abort, Proc.bind_apply, Proc.seq, ready_apply, h]
  | false => simp [send, note, Proc.bind_apply, Proc.seq, ready_apply, h]

/-- A message whose handler returned. -/
theorem step_ok {m : Message} {c' : Conn σ V} (h : handle B m { c with log := [] } = (.ok (), c')) :
    step B c m = c' := by
  rw [step, h]

/-- A message whose handler raised. -/
theorem step_error {m : Message} {c' : Conn σ V} {e : Failure}
    (h : handle B m { c with log := [] } = (.error e, c')) :
    step B c m = (recover B e c').2 := by
  rw [step, h]

theorem recover_portals (e : Failure) : (recover B e c).2.portals = c.portals := by
  rw [recover_apply]
  rfl

theorem recover_portalCache (e : Failure) : (recover B e c).2.portalCache = c.portalCache := by
  rw [recover_apply]
  rfl

/-- A loop over statements stays in the frame of a statement. -/
theorem keeps_statements (sqls : List String) :
    Proc.Keeps (Inner fun _ => True) (Proc.each (statement B) sqls) :=
  Proc.Keeps.each Inner.refl Inner.trans (fun _ => keeps_statement B fun _ _ => trivial) sqls

/-- An Execute of a bound portal: the gate and what is behind it, from the state in which the cache
entry was popped. -/
theorem execute_some {name : String} {p : Portal} (maxrows : Nat)
    (h : c.portals.get? name = some p) :
    execute B name maxrows c = (gate B p.sql >>= fun go =>
      if go then executePortal B p maxrows (c.portalCache.get? name) else pure ())
        { c with portalCache := c.portalCache.erase name } := by
  unfold execute
  rw [Proc.get_bind, h]
  rfl

theorem execute_none {name : String} (maxrows : Nat) (h : c.portals.get? name = none) :
    execute B name maxrows c =
      (.ok (), { c with log := c.log ++ [.sent .emptyQueryResponse] }) := by
  unfold execute
  rw [Proc.get_bind, h]
  rfl

/-- **The portals after a message.**  A Bind that does not ask for the binary format and a Close of a
portal are the only messages that change them. -/
def portalsAfter (c : Conn σ V) : Message → Dict String Portal
  | .bind portal stmtName fmts params rfmts =>
    if 1 ∈ rfmts ∨ 1 ∈ fmts then c.portals
    else c.portals.set portal (boundPortal c stmtName params)
  | .closePortal name => c.portals.erase name
  | _ => c.portals

variable {B c}

/-- The end of a message in which the handler stayed in a frame that the `except` clauses respect. -/
theorem step_frame {R : Conn σ V → Conn σ V → Prop} (ht : ∀ a b c, R a b → R b c → R a c)
    (hrec : ∀ e, Proc.Keeps R (recover B e)) {m : Message}
    (h : R { c with log := [] } (handle B m { c with log := [] }).2) :
    R { c with log := [] } (step B c m) := by
  rcases hh : handle B m { c with log := [] } with ⟨r, c'⟩
  rw [hh] at h
  cases r with
  | ok u => rwa [step_ok B c hh]
  | error e =>
    rw [step_error B c hh]
    exact ht _ _ _ h (hrec e c')

/-- The portals do not change. -/
def SamePortals (c c' : Conn σ V) : Prop := c'.portals = c.portals

theorem SamePortals.trans (a b c : Conn σ V) (h₁ : SamePortals a b) (h₂ : SamePortals b c) :
    SamePortals a c := Eq.trans h₂ h₁

theorem SamePortals.refl (c : Conn σ V) : SamePortals c c := Eq.refl _

theorem describeResult_portals (name : String) : ∀ r : Except Failure (Result V),
    Proc.Keeps SamePortals (describeResult name r : Act σ V Unit)
  | .ok (.frame _) => fun _ => rfl
  | .ok (.count _) => fun _ => rfl
  | .ok .none => fun _ => rfl
  | .error _ => fun _ => rfl

variable (B c)

theorem describePortal_portals (name : String) :
    Proc.Keeps SamePortals (describePortal B name) := by
  refine Proc.Keeps.bind SamePortals.trans (Proc.Keeps.get SamePortals.refl) fun c => ?_
  refine Proc.Keeps.lift_bind SamePortals.refl fun full _ => ?_
  unfold describeOutput
  split
  · exact fun _ => rfl
  · split
    · exact Proc.Keeps.bind SamePortals.trans (fun _ => rfl) fun r => describeResult_portals name r
    · exact fun _ => rfl

theorem describeStatement_portals (name : String) :
    Proc.Keeps SamePortals (describeStatement name : Act σ V Unit) := by
  refine Proc.Keeps.bind SamePortals.trans (Proc.Keeps.get SamePortals.refl) fun c => ?_
  dsimp only
  split
  · exact fun _ => rfl
  · exact fun _ => rfl

theorem execute_portals (name : String) (maxrows : Nat) :
    SamePortals c (execute B name maxrows c).2 := by
  cases hp : c.portals.get? name with
  | none =>
    rw [execute_none B c maxrows hp]
    rfl
  | some p =>
    rw [execute_some B c maxrows hp]
    exact (keeps_gated (S := fun _ => True) B maxrows _ (fun _ _ _ _ => trivial) _).portals

theorem simpleQuery_inner (sql : String) : ∃ c₁ r, Inner (fun _ => True) c c₁ ∧
    ((simpleQuery B sql c = (.ok (), (ready B c₁).2)) ∨ simpleQuery B sql c = (.error r, c₁)) := by
  unfold simpleQuery
  split
  · refine ⟨{ c with log := c.log ++ [.sent .emptyQueryResponse] }, .cancelled, ?_, .inl rfl⟩
    have hs : Proc.Keeps (Plain fun _ => True) (send .emptyQueryResponse : Act σ V Unit) :=
      keeps_send trivial
    exact (hs c).inner
  · rcases he : Proc.each (statement B) (splitStatements sql) c with ⟨r, c₁⟩
    have hi : Inner (fun _ => True) c c₁ := (keeps_statements B (splitStatements sql)).apply he
    cases r with
    | error e =>
      refine ⟨c₁, e, hi, .inr ?_⟩
      rw [Proc.bind_of_error he]
    | ok u =>
      refine ⟨c₁, .cancelled, hi, .inl ?_⟩
      rw [Proc.bind_of_ok he]
      rfl

/-- **The portals after a message are those of `portalsAfter`.** -/
theorem step_portals (m : Message) : (step B c m).portals = portalsAfter c m := by
  have hframe : ∀ {m : Message}, SamePortals { c with log := [] }
      (handle B m { c with log := [] }).2 → (step B c m).portals = c.portals := fun h =>
    step_frame (R := SamePortals) SamePortals.trans (fun e c => recover_portals B c e) h
  cases m with
  | query sql =>
    refine hframe ?_
    obtain ⟨c₁, e, hi, h | h⟩ := simpleQuery_inner B { c with log := [] } sql
    · rw [handle, h]
      exact hi.portals
    · rw [handle, h]
      exact hi.portals
  | parse name sql oids => exact hframe rfl
  | bind portal stmtName fmts params rfmts =>
    by_cases hr : 1 ∈ rfmts
    · rw [portalsAfter, if_pos (.inl hr)]
      refine hframe ?_
      rw [handle, bind, if_pos hr]
      rfl
    · by_cases hf : 1 ∈ fmts
      · rw [portalsAfter, if_pos (.inr hf)]
        refine hframe ?_
        rw [handle, bind, if_neg hr, if_pos hf]
        rfl
      · rw [portalsAfter, if_neg (not_or.mpr ⟨hr, hf⟩)]
        have h : handle B (.bind portal stmtName fmts params rfmts) { c with log := [] } =
            (.ok (), { c with
              portals := c.portals.set portal (boundPortal c stmtName params)
              log := [.sent .bindComplete] }) := by
          rw [handle, bind, if_neg hr, if_neg hf]
          rfl
        rw [step_ok B c h]
  | describeStatement name => exact hframe (describeStatement_portals name _)
  | describePortal name => exact hframe (describePortal_portals B name _)
  | execute portal maxrows => exact hframe (execute_portals B _ portal maxrows)
  | sync => exact hframe rfl
  | closeStatement name => exact hframe rfl
  | closePortal name => rfl
  | flush => exact hframe rfl
  | unsupported t => exact hframe rfl
  | malformed message => exact hframe rfl

end Loop

end Pg

end RyuDB
